import Stynx.MobileNumbering

/-!
# The queue on a mobile device

`packages/mobile-runtime/src/runtime.ts`: `enqueue` reads a finalized draft, puts
a queue item for it and then puts the draft back as queued; `submitPendingQueue`
lists the queue, marks the pending items as sent one by one, submits them as one
batch and puts each of them back with what the backend says.
-/

namespace Stynx.MobileQueue

open TransitionRuns CallTables MobileNumbering OrderedMap

inductive LocalDraftStatus where
  | draft
  | finalized
  | queued
  /-- A draft that the backend has. -/
  | synced
  | conflict
  | wiped
  deriving DecidableEq

structure StoredDraft extends MobileEntityDraft where
  status : LocalDraftStatus
  updatedAt : String
  deriving DecidableEq

inductive SyncQueueStatus where
  | pending
  | sent
  | received
  | applied
  | conflict
  | rejected
  deriving DecidableEq

structure MobileSyncQueueItem where
  queueItemId : String
  entityType : String
  localEntityId : String
  status : SyncQueueStatus
  attempts : Nat
  idempotencyKey : String
  payloadHash : String
  session : MobileSessionContext
  normativePackageId : String
  reservedNumber : Nat
  createdLocallyAt : String
  lastSubmittedAt : Option String := none
  deriving DecidableEq

/-- The item that `enqueue` makes of a draft. -/
def itemOf (draft : StoredDraft) (queueItemId : String) : MobileSyncQueueItem where
  queueItemId := queueItemId
  entityType := draft.entityType
  localEntityId := draft.localId
  status := .pending
  attempts := 0
  idempotencyKey := draft.idempotencyKey
  payloadHash := draft.localContentHash
  session := draft.session
  normativePackageId := draft.normativePackage.packageId
  reservedNumber := draft.reservedNumber
  createdLocallyAt := draft.createdAt

def markSent (submittedAt : String) (item : MobileSyncQueueItem) : MobileSyncQueueItem :=
  { item with status := .sent, attempts := item.attempts + 1, lastSubmittedAt := some submittedAt }

/-- An item after the backend has answered; a failed submission makes it pending again. -/
def settle (answer : Option (List String)) (item : MobileSyncQueueItem) : MobileSyncQueueItem :=
  { item with
    status := match answer with
      | none => .pending
      | some conflicts => if item.queueItemId ∈ conflicts then .conflict else .received }

/-- How far a call has come: what it does next. -/
inductive Phase where
  /-- `enqueue` gets the draft. -/
  | readDraft (localEntityId : String)
  | putItem (localEntityId : String) (draft : StoredDraft) (item : MobileSyncQueueItem)
  | putQueued (localEntityId : String) (draft : StoredDraft)
  | readSession
  /-- `submitPendingQueue` lists the queue. -/
  | list (session : MobileSessionContext)
  /-- `submitPendingQueue` puts the first of the items that are left. -/
  | mark (session : MobileSessionContext) (marked left : List MobileSyncQueueItem)
  /-- The batch of `submitPendingQueue` is in flight. -/
  | send (session : MobileSessionContext) (batch : List MobileSyncQueueItem)
  /-- `submitPendingQueue` puts the first of the settled items that are left. -/
  | settle (left : List MobileSyncQueueItem)
  /-- The call has returned or thrown. -/
  | ended
  deriving DecidableEq

def Phase.claims : Phase → List MobileSyncQueueItem
  | .mark _ marked left => marked ++ left
  | .send _ batch => batch
  | .settle left => left
  | _ => []

def Phase.unmarked : Phase → List MobileSyncQueueItem
  | .mark _ _ left => left
  | _ => []

def Phase.inFlight : Phase → List MobileSyncQueueItem
  | .send _ batch => batch
  | _ => []

/-- The item that a call is about to put for the first time. -/
def Phase.newItem : Phase → Option MobileSyncQueueItem
  | .putItem _ _ item => some item
  | _ => none

/-- After a mark: the next one, or the batch is sent. -/
def afterMark (session : MobileSessionContext) (marked left : List MobileSyncQueueItem) : Phase :=
  if left = [] then .send session marked else .mark session marked left

/-- After an item has been settled: the next one, or the call returns. -/
def afterSettle (left : List MobileSyncQueueItem) : Phase :=
  if left = [] then .ended else .settle left

/-- The device: its store, the calls, and the identifiers that its port has given out. -/
structure Runtime where
  session : Option MobileSessionContext
  drafts : OrderedMap String StoredDraft
  queue : OrderedMap String MobileSyncQueueItem
  /-- The calls of `enqueue` and `submitPendingQueue`. -/
  calls : List Phase
  ids : List String

/-- What happens on the device. -/
inductive Label where
  | enqueue (localEntityId : String)
  | submitPendingQueue
  /-- `enqueue` reads the draft and makes an item with a new identifier. -/
  | readDraft (index : Nat) (queueItemId : String)
  | putItem (index : Nat)
  /-- `enqueue` puts the draft, at a time. -/
  | putQueued (index : Nat) (now : String)
  /-- `submitPendingQueue` reads the session. -/
  | readSession (index : Nat)
  /-- `submitPendingQueue` lists the queue, at a time. -/
  | listQueue (index : Nat) (listed : List MobileSyncQueueItem) (now : String)
  /-- `submitPendingQueue` marks an item. -/
  | markItem (index : Nat)
  /-- The backend answers with the items in conflict, or fails. -/
  | answer (index : Nat) (conflicts : Option (List String))
  /-- `submitPendingQueue` puts a settled item. -/
  | settleItem (index : Nat)
  /-- The store call of a call fails. -/
  | fail (index : Nat)
  /-- Another operation puts a draft. -/
  | writeDraft (draft : StoredDraft)

def callTo (s : Runtime) (index : Nat) (phase : Phase) : Runtime :=
  { s with calls := s.calls.set index phase }

def putRecord (s : Runtime) (item : MobileSyncQueueItem) : Runtime :=
  { s with queue := s.queue.set item.queueItemId item }

def Label.call : Label → Option Nat
  | .readDraft index _ => some index
  | .putItem index => some index
  | .putQueued index _ => some index
  | .readSession index => some index
  | .listQueue index _ _ => some index
  | .markItem index => some index
  | .answer index _ => some index
  | .settleItem index => some index
  | .fail index => some index
  | _ => none

def callStep (s : Runtime) (index : Nat) (phase : Phase) : Label → Option Runtime
  | .readDraft _ queueItemId =>
    match phase with
    | .readDraft localEntityId =>
      match s.drafts.get? localEntityId with
      | none => some (callTo s index .ended)
      | some draft =>
        if draft.status ≠ .finalized then some (callTo s index .ended)
        -- the port for identifiers does not give one twice
        else if queueItemId ∈ s.ids then none
        else some { callTo s index (.putItem localEntityId draft (itemOf draft queueItemId)) with
          ids := s.ids ++ [queueItemId] }
    | _ => none
  | .putItem _ =>
    match phase with
    | .putItem localEntityId draft item =>
      some (callTo (putRecord s item) index (.putQueued localEntityId draft))
    | _ => none
  | .putQueued _ now =>
    match phase with
    | .putQueued localEntityId draft => some { callTo s index .ended with
        drafts := s.drafts.set localEntityId { draft with status := .queued, updatedAt := now } }
    | _ => none
  | .readSession _ =>
    match phase with
    | .readSession =>
      match s.session with
      | some session => some (callTo s index (.list session))
      | none => some (callTo s index .ended)
    | _ => none
  | .listQueue _ listed now =>
    match phase with
    | .list session =>
      -- the store may list its records in any order
      if listed.Perm s.queue.values then
        let pending := listed.filter fun item => item.status = .pending
        some (callTo s index
          (if pending = [] then .ended else .mark session [] (pending.map (markSent now))))
      else none
    | _ => none
  | .markItem _ =>
    match phase with
    | .mark session marked (item :: left) =>
      some (callTo (putRecord s item) index (afterMark session (marked ++ [item]) left))
    | _ => none
  | .answer _ conflicts =>
    match phase with
    | .send _ batch => some (callTo s index (afterSettle (batch.map (settle conflicts))))
    | _ => none
  | .settleItem _ =>
    match phase with
    | .settle (item :: left) => some (callTo (putRecord s item) index (afterSettle left))
    | _ => none
  | .fail _ => if phase = .ended then none else some (callTo s index .ended)
  | _ => none

def step (s : Runtime) (label : Label) : Option Runtime :=
  match label.call with
  | some index => s.calls[index]?.bind fun phase => callStep s index phase label
  | none =>
    match label with
    | .enqueue localEntityId => some { s with calls := s.calls ++ [.readDraft localEntityId] }
    | .submitPendingQueue => some { s with calls := s.calls ++ [.readSession] }
    | .writeDraft draft => some { s with drafts := s.drafts.set draft.localId draft }
    | _ => none

/-- What a device has stored: its items under their identifiers, no two of one draft. -/
structure Store where
  session : Option MobileSessionContext := none
  drafts : OrderedMap String StoredDraft := .empty
  queue : OrderedMap String MobileSyncQueueItem := .empty
  /-- Each item is stored under its own identifier. -/
  keyed : ∀ entry ∈ queue.entries, entry.2.queueItemId = entry.1
  /-- No draft has two items. -/
  distinct : (queue.values.map MobileSyncQueueItem.localEntityId).Nodup

/-- The device before its first call. -/
def start (store : Store) : Runtime where
  session := store.session
  drafts := store.drafts
  queue := store.queue
  calls := []
  ids := store.queue.entries.map Prod.fst

/-- A draft is read for the queue only while it has no item and none is about to be put. -/
def EnqueuesOnce (s : Runtime) (label : Label) : Prop :=
  match label with
  | .readDraft index _ =>
    match s.calls[index]? with
    | some (.readDraft localEntityId) =>
      ∀ draft ∈ s.drafts.get? localEntityId,
        (∀ item ∈ s.queue.values, item.localEntityId ≠ draft.localId) ∧
          ∀ phase ∈ s.calls, ∀ item ∈ phase.newItem, item.localEntityId ≠ draft.localId
    | _ => True
  | _ => True

/-- The queue is listed only while no other call has listed a pending item and not yet marked
it. -/
def ListsMarked (s : Runtime) (label : Label) : Prop :=
  match label with
  | .listQueue _ _ _ =>
    ∀ phase ∈ s.calls, ∀ item ∈ phase.unmarked, ∀ stored ∈ s.queue.get? item.queueItemId,
      stored.status ≠ .pending
  | _ => True

instance (s : Runtime) (label : Label) : Decidable (EnqueuesOnce s label) := by
  unfold EnqueuesOnce
  split
  · split <;> infer_instance
  · infer_instance

instance (s : Runtime) (label : Label) : Decidable (ListsMarked s label) := by
  unfold ListsMarked
  split <;> infer_instance

/-- What a step can do to the queue and to the items that calls hold. -/
inductive Effect (s : Runtime) : Label → Runtime → Prop where
  /-- A call goes on or ends without items. -/
  | dropped (label : Label) (index : Nat) (phase : Phase)
      (drafts : OrderedMap String StoredDraft) (claims : phase.claims = [])
      (unmarked : phase.unmarked = []) (newItem : phase.newItem = none) :
      Effect s label { callTo s index phase with drafts := drafts }
  /-- `enqueue` makes an item. -/
  | read (index : Nat) (localEntityId queueItemId : String) (draft : StoredDraft)
      (called : s.calls[index]? = some (.readDraft localEntityId))
      (found : s.drafts.get? localEntityId = some draft) (fresh : queueItemId ∉ s.ids) :
      Effect s (.readDraft index queueItemId)
        { callTo s index (.putItem localEntityId draft (itemOf draft queueItemId)) with
          ids := s.ids ++ [queueItemId] }
  /-- `enqueue` puts its item. -/
  | queued (index : Nat) (localEntityId : String) (draft : StoredDraft)
      (item : MobileSyncQueueItem)
      (called : s.calls[index]? = some (.putItem localEntityId draft item)) :
      Effect s (.putItem index) (callTo (putRecord s item) index (.putQueued localEntityId draft))
  /-- `submitPendingQueue` lists pending items. -/
  | listed (index : Nat) (session : MobileSessionContext) (listed : List MobileSyncQueueItem)
      (now : String) (all : listed.Perm s.queue.values) :
      Effect s (.listQueue index listed now) (callTo s index (.mark session []
        ((listed.filter fun item => item.status = .pending).map (markSent now))))
  | marked (index : Nat) (session : MobileSessionContext) (marked : List MobileSyncQueueItem)
      (item : MobileSyncQueueItem) (left : List MobileSyncQueueItem)
      (called : s.calls[index]? = some (.mark session marked (item :: left))) :
      Effect s (.markItem index)
        (callTo (putRecord s item) index (afterMark session (marked ++ [item]) left))
  | answered (index : Nat) (session : MobileSessionContext) (batch : List MobileSyncQueueItem)
      (conflicts : Option (List String)) (called : s.calls[index]? = some (.send session batch)) :
      Effect s (.answer index conflicts)
        (callTo s index (afterSettle (batch.map (settle conflicts))))
  | settled (index : Nat) (item : MobileSyncQueueItem) (left : List MobileSyncQueueItem)
      (called : s.calls[index]? = some (.settle (item :: left))) :
      Effect s (.settleItem index) (callTo (putRecord s item) index (afterSettle left))
  | called (label : Label) (phase : Phase) (claims : phase.claims = [])
      (unmarked : phase.unmarked = []) (newItem : phase.newItem = none) :
      Effect s label { s with calls := s.calls ++ [phase] }
  | written (draft : StoredDraft) :
      Effect s (.writeDraft draft) { s with drafts := s.drafts.set draft.localId draft }

variable {s t : Runtime} {label : Label}

variable {index : Nat} {phase : Phase} {item : MobileSyncQueueItem} {session : MobileSessionContext}

theorem effect_of_callStep (hown : label.call = some index) (hcall : s.calls[index]? = some phase)
    (h : callStep s index phase label = some t) :
    Effect s label t := by
  cases label with
  | readDraft _ queueItemId =>
    cases hown
    simp only [callStep] at h
    split at h
    case h_1 localEntityId =>
      split at h
      · cases h
        exact .dropped _ index .ended s.drafts rfl rfl rfl
      · split at h
        case isTrue =>
          cases h
          exact .dropped _ index .ended s.drafts rfl rfl rfl
        case isFalse =>
          split at h
          case isTrue => cases h
          case isFalse hfresh =>
            cases h
            exact .read index localEntityId queueItemId _ hcall (by assumption) hfresh
    case h_2 => cases h
  | putItem =>
    cases hown
    simp only [callStep] at h
    split at h
    · cases h
      exact .queued index _ _ _ hcall
    · cases h
  | putQueued _ now =>
    cases hown
    simp only [callStep] at h
    split at h
    · cases h
      exact .dropped _ index .ended _ rfl rfl rfl
    · cases h
  | readSession =>
    cases hown
    simp only [callStep] at h
    split at h
    · split at h
      · cases h
        exact .dropped _ index _ s.drafts rfl rfl rfl
      · cases h
        exact .dropped _ index .ended s.drafts rfl rfl rfl
    · cases h
  | listQueue _ listed now =>
    cases hown
    simp only [callStep] at h
    split at h
    case h_1 session =>
      split at h
      case isTrue hperm =>
        cases h
        split
        · exact .dropped _ index .ended s.drafts rfl rfl rfl
        · exact .listed index session listed now hperm
      case isFalse => cases h
    case h_2 => cases h
  | markItem =>
    cases hown
    simp only [callStep] at h
    split at h
    · cases h
      exact .marked index _ _ _ _ hcall
    · cases h
  | answer _ conflicts =>
    cases hown
    simp only [callStep] at h
    split at h
    · cases h
      exact .answered index _ _ conflicts hcall
    · cases h
  | settleItem =>
    cases hown
    simp only [callStep] at h
    split at h
    · cases h
      exact .settled index _ _ hcall
    · cases h
  | fail =>
    cases hown
    simp only [callStep] at h
    split at h
    · cases h
    · cases h
      exact .dropped _ index .ended s.drafts rfl rfl rfl
  | enqueue => cases h
  | submitPendingQueue => cases h
  | writeDraft => cases h

theorem effect_of_step (h : step s label = some t) : Effect s label t := by
  unfold step at h
  cases hown : label.call with
  | some index =>
    rw [hown] at h
    obtain ⟨phase, hcall, h⟩ := Option.bind_eq_some_iff.mp h
    exact effect_of_callStep hown hcall h
  | none =>
    rw [hown] at h
    cases label with
    | enqueue localEntityId =>
      cases h
      exact .called _ _ rfl rfl rfl
    | submitPendingQueue =>
      cases h
      exact .called _ _ rfl rfl rfl
    | writeDraft draft =>
      cases h
      exact .written draft
    | readDraft => cases hown
    | putItem => cases hown
    | putQueued => cases hown
    | readSession => cases hown
    | listQueue => cases hown
    | markItem => cases hown
    | answer => cases hown
    | settleItem => cases hown
    | fail => cases hown

/-- The items of different drafts, stored or about to be. -/
structure Items (s : Runtime) : Prop where
  /-- Items are stored under their identifiers, which are in use. -/
  keyed : ∀ id item, s.queue.get? id = some item → item.queueItemId = id ∧ id ∈ s.ids
  /-- No draft has two stored items. -/
  distinct : ∀ id id' item item', s.queue.get? id = some item → s.queue.get? id' = some item' →
    item.localEntityId = item'.localEntityId → id = id'
  /-- An item that is about to be put has an identifier of its own. -/
  fresh : ∀ (i : Nat) phase item, s.calls[i]? = some phase → phase.newItem = some item →
    item.queueItemId ∈ s.ids ∧ s.queue.get? item.queueItemId = none
  /-- Its draft has no stored item. -/
  first : ∀ (i : Nat) phase item, s.calls[i]? = some phase → phase.newItem = some item →
    ∀ id stored, s.queue.get? id = some stored → stored.localEntityId ≠ item.localEntityId
  /-- No other call is about to put an item for its draft or with its identifier. -/
  apart : ∀ (i j : Nat) one two item item', s.calls[i]? = some one → s.calls[j]? = some two →
    one.newItem = some item → two.newItem = some item' →
    item.queueItemId = item'.queueItemId ∨ item.localEntityId = item'.localEntityId → i = j

theorem Items.callTo (h : Items s) (index : Nat) (hnone : phase.newItem = none) :
    Items (callTo s index phase) where
  keyed := h.keyed
  distinct := h.distinct
  fresh i found item hfound hitem := by
    rcases getElem?_set_cases hfound with ⟨-, rfl⟩ | ⟨-, hold⟩
    · rw [hnone] at hitem
      cases hitem
    · exact h.fresh i found item hold hitem
  first i found item hfound hitem := by
    rcases getElem?_set_cases hfound with ⟨-, rfl⟩ | ⟨-, hold⟩
    · rw [hnone] at hitem
      cases hitem
    · exact h.first i found item hold hitem
  apart i j one two item item' hi hj hone htwo := by
    rcases getElem?_set_cases hi with ⟨-, rfl⟩ | ⟨-, holdi⟩
    · rw [hnone] at hone
      cases hone
    · rcases getElem?_set_cases hj with ⟨-, rfl⟩ | ⟨-, holdj⟩
      · rw [hnone] at htwo
        cases htwo
      · exact h.apart i j one two item item' holdi holdj hone htwo

theorem Items.replace (h : Items s) {stored : MobileSyncQueueItem}
    (hstored : s.queue.get? item.queueItemId = some stored)
    (hsame : stored.localEntityId = item.localEntityId) : Items (putRecord s item) := by
  -- whatever is stored now stands for an item of the same draft before
  have hbefore : ∀ id found, (putRecord s item).queue.get? id = some found →
      ∃ old, s.queue.get? id = some old ∧ old.localEntityId = found.localEntityId ∧
        (found.queueItemId = id ∧ id ∈ s.ids) := by
    intro id found hfound
    rcases get?_set_eq_some.mp hfound with ⟨rfl, rfl⟩ | ⟨-, hold⟩
    · exact ⟨stored, hstored, hsame, rfl, (h.keyed _ _ hstored).2⟩
    · exact ⟨found, hold, rfl, h.keyed id found hold⟩
  refine ⟨?_, ?_, ?_, ?_, h.apart⟩
  · intro id found hfound
    obtain ⟨old, -, -, hkeyed⟩ := hbefore id found hfound
    exact hkeyed
  · intro id id' found found' hfound hfound' heq
    obtain ⟨old, hold, hlocal, -⟩ := hbefore id found hfound
    obtain ⟨old', hold', hlocal', -⟩ := hbefore id' found' hfound'
    exact h.distinct id id' old old' hold hold' (by rw [hlocal, hlocal', heq])
  · intro i phase new hcall hnew
    obtain ⟨hid, hnone⟩ := h.fresh i phase new hcall hnew
    refine ⟨hid, ?_⟩
    have hne : item.queueItemId ≠ new.queueItemId := by
      intro heq
      rw [heq, hnone] at hstored
      cases hstored
    exact (get?_set_of_ne s.queue item hne).trans hnone
  · intro i phase new hcall hnew id found hfound
    obtain ⟨old, hold, hlocal, -⟩ := hbefore id found hfound
    rw [← hlocal]
    exact h.first i phase new hcall hnew id old hold

theorem Items.read (h : Items s) {localEntityId queueItemId : String} {draft : StoredDraft}
    (hcall : s.calls[index]? = some (.readDraft localEntityId))
    (hfound : s.drafts.get? localEntityId = some draft) (hfresh : queueItemId ∉ s.ids)
    (honce : EnqueuesOnce s (.readDraft index queueItemId)) :
    Items { MobileQueue.callTo s index (.putItem localEntityId draft (itemOf draft queueItemId)) with
      ids := s.ids ++ [queueItemId] } := by
  simp only [EnqueuesOnce, hcall] at honce
  obtain ⟨hstored, hothers⟩ := honce draft hfound
  have hother : ∀ (i : Nat) phase item, s.calls[i]? = some phase → phase.newItem = some item →
      item.queueItemId ≠ queueItemId ∧ item.localEntityId ≠ draft.localId := by
    intro i phase item hphase hitem
    refine ⟨fun heq => hfresh ?_, hothers phase (List.mem_of_getElem? hphase) item hitem⟩
    rw [← heq]
    exact (h.fresh i phase item hphase hitem).1
  refine ⟨?_, h.distinct, ?_, ?_, ?_⟩
  · intro id item hitem
    obtain ⟨hid, hmem⟩ := h.keyed id item hitem
    exact ⟨hid, List.mem_append_left _ hmem⟩
  · intro i phase item hphase hitem
    rcases getElem?_set_cases hphase with ⟨-, rfl⟩ | ⟨-, hold⟩
    · cases hitem
      refine ⟨List.mem_concat_self, ?_⟩
      cases hget : s.queue.get? queueItemId with
      | none => exact hget
      | some stored => exact absurd (h.keyed _ _ hget).2 hfresh
    · obtain ⟨hmem, hnone⟩ := h.fresh i phase item hold hitem
      exact ⟨List.mem_append_left _ hmem, hnone⟩
  · intro i phase item hphase hitem id found hget
    rcases getElem?_set_cases hphase with ⟨-, rfl⟩ | ⟨-, hold⟩
    · cases hitem
      exact hstored found (mem_values_iff.mpr ⟨id, hget⟩)
    · exact h.first i phase item hold hitem id found hget
  · intro i j one two item item' hi hj hone htwo hshared
    rcases getElem?_set_cases hi with ⟨rfl, rfl⟩ | ⟨-, holdi⟩
    · rcases getElem?_set_cases hj with ⟨rfl, rfl⟩ | ⟨-, holdj⟩
      · rfl
      · cases hone
        obtain ⟨hid, hlocal⟩ := hother j two item' holdj htwo
        exact (hshared.elim (fun heq => hid heq.symm) (fun heq => hlocal heq.symm)).elim
    · rcases getElem?_set_cases hj with ⟨rfl, rfl⟩ | ⟨-, holdj⟩
      · cases htwo
        obtain ⟨hid, hlocal⟩ := hother i one item holdi hone
        exact (hshared.elim hid hlocal).elim
      · exact h.apart i j one two item item' holdi holdj hone htwo hshared

theorem Items.queued (h : Items s) {localEntityId : String} {draft : StoredDraft}
    (hcall : s.calls[index]? = some (.putItem localEntityId draft item)) :
    Items (MobileQueue.callTo (putRecord s item) index (.putQueued localEntityId draft)) := by
  obtain ⟨hid, hnone⟩ := h.fresh index _ item hcall rfl
  have hfirst := h.first index _ item hcall rfl
  -- the other calls' items have other identifiers and other drafts
  have hother : ∀ (i : Nat) phase new,
      (MobileQueue.callTo (putRecord s item) index
        (.putQueued localEntityId draft)).calls[i]? = some phase →
      phase.newItem = some new → s.calls[i]? = some phase ∧
        item.queueItemId ≠ new.queueItemId ∧ item.localEntityId ≠ new.localEntityId := by
    intro i phase new hphase hnew
    rcases getElem?_set_cases hphase with ⟨-, rfl⟩ | ⟨hne, hold⟩
    · cases hnew
    · have hapart := h.apart index i _ phase item new hcall hold rfl hnew
      exact ⟨hold, fun heq => hne (hapart (.inl heq)).symm,
        fun heq => hne (hapart (.inr heq)).symm⟩
  refine ⟨?_, ?_, ?_, ?_, ?_⟩
  · intro id found hfound
    rcases get?_set_eq_some.mp hfound with ⟨rfl, rfl⟩ | ⟨-, hold⟩
    · exact ⟨rfl, hid⟩
    · exact h.keyed id found hold
  · intro id id' found found' hfound hfound' heq
    rcases get?_set_eq_some.mp hfound with ⟨rfl, rfl⟩ | ⟨-, hold⟩
    · rcases get?_set_eq_some.mp hfound' with ⟨rfl, rfl⟩ | ⟨-, hold'⟩
      · rfl
      · exact absurd heq.symm (hfirst id' found' hold')
    · rcases get?_set_eq_some.mp hfound' with ⟨rfl, rfl⟩ | ⟨-, hold'⟩
      · exact absurd heq (hfirst id found hold)
      · exact h.distinct id id' found found' hold hold' heq
  · intro i phase new hphase hnew
    obtain ⟨hold, hne, -⟩ := hother i phase new hphase hnew
    obtain ⟨hmem, hnone'⟩ := h.fresh i phase new hold hnew
    exact ⟨hmem, (get?_set_of_ne s.queue item hne).trans hnone'⟩
  · intro i phase new hphase hnew id found hfound
    obtain ⟨hold, -, hne⟩ := hother i phase new hphase hnew
    rcases get?_set_eq_some.mp hfound with ⟨rfl, rfl⟩ | ⟨-, hget⟩
    · exact hne
    · exact h.first i phase new hold hnew id found hget
  · intro i j one two new new' hi hj hone htwo hshared
    exact h.apart i j one two new new' (hother i one new hi hone).1 (hother j two new' hj htwo).1
      hone htwo hshared

theorem Items.step (h : Items s) (honce : EnqueuesOnce s label)
    (hclaims : ∀ (i : Nat) phase item, s.calls[i]? = some phase → item ∈ phase.claims →
      ∃ stored, s.queue.get? item.queueItemId = some stored ∧
        stored.localEntityId = item.localEntityId)
    (hstep : MobileQueue.step s label = some t) : Items t := by
  cases effect_of_step hstep with
  | dropped _ index phase drafts hnone hunmarked hnew =>
    have hcalled := h.callTo index hnew
    exact ⟨hcalled.keyed, hcalled.distinct, hcalled.fresh, hcalled.first, hcalled.apart⟩
  | read index localEntityId queueItemId draft hcall hfound hfresh =>
    exact h.read hcall hfound hfresh honce
  | queued index localEntityId draft item hcall => exact h.queued hcall
  | listed index session listed now hall => exact h.callTo index rfl
  | marked index session marked item left hcall =>
    obtain ⟨stored, hstored, hsame⟩ := hclaims index _ item hcall
      (List.mem_append_right _ (.head _))
    refine (h.replace hstored hsame).callTo index ?_
    unfold afterMark
    split <;> rfl
  | answered index session batch conflicts hcall =>
    refine h.callTo index ?_
    unfold afterSettle
    split <;> rfl
  | settled index item left hcall =>
    obtain ⟨stored, hstored, hsame⟩ := hclaims index _ item hcall (.head _)
    refine (h.replace hstored hsame).callTo index ?_
    unfold afterSettle
    split <;> rfl
  | called _ phase hnone hunmarked hnew =>
    have hold : ∀ (i : Nat) found item, (s.calls ++ [phase])[i]? = some found →
        found.newItem = some item → s.calls[i]? = some found := by
      intro i found item hfound hitem
      rcases getElem?_concat_cases hfound with ⟨-, rfl⟩ | ⟨-, hold⟩
      · rw [hnew] at hitem
        cases hitem
      · exact hold
    refine ⟨h.keyed, h.distinct, ?_, ?_, ?_⟩
    · intro i found item hfound hitem
      exact h.fresh i found item (hold i found item hfound hitem) hitem
    · intro i found item hfound hitem
      exact h.first i found item (hold i found item hfound hitem) hitem
    · intro i j one two item item' hi hj hone htwo
      exact h.apart i j one two item item' (hold i one item hi hone) (hold j two item' hj htwo)
        hone htwo
  | written draft => exact ⟨h.keyed, h.distinct, h.fresh, h.first, h.apart⟩

theorem items_start (store : Store) : Items (start store) where
  keyed id item hget := by
    have hmem := mem_entries_iff.mpr hget
    exact ⟨store.keyed (id, item) hmem, List.mem_map_of_mem hmem⟩
  distinct id id' item item' hget hget' heq := by
    have hmem := mem_entries_iff.mpr hget
    have hmem' := mem_entries_iff.mpr hget'
    have hsame : item = item' := List.inj_on_of_nodup_map store.distinct
      (List.mem_map_of_mem hmem) (List.mem_map_of_mem hmem') heq
    have hid : item.queueItemId = id := store.keyed (id, item) hmem
    have hid' : item'.queueItemId = id' := store.keyed (id', item') hmem'
    rw [← hid, ← hid', hsame]
  fresh i phase item hcall := by cases hcall
  first i phase item hcall := by cases hcall
  apart i j one two item item' hcall := by cases hcall

@[simp] theorem claims_afterMark (session : MobileSessionContext)
    (marked left : List MobileSyncQueueItem) :
    (afterMark session marked left).claims = marked ++ left := by
  unfold afterMark
  split
  case isTrue hleft => rw [hleft, List.append_nil]; rfl
  case isFalse => rfl

@[simp] theorem unmarked_afterMark (session : MobileSessionContext)
    (marked left : List MobileSyncQueueItem) :
    (afterMark session marked left).unmarked = left := by
  unfold afterMark
  split
  case isTrue hleft => rw [hleft]; rfl
  case isFalse => rfl

@[simp] theorem claims_afterSettle (left : List MobileSyncQueueItem) :
    (afterSettle left).claims = left := by
  unfold afterSettle
  split
  case isTrue hleft => rw [hleft]; rfl
  case isFalse => rfl

@[simp] theorem unmarked_afterSettle (left : List MobileSyncQueueItem) :
    (afterSettle left).unmarked = [] := by
  unfold afterSettle
  split <;> rfl

theorem inFlight_subset_claims (phase : Phase) : phase.inFlight ⊆ phase.claims := by
  cases phase with
  | send => exact List.Subset.refl _
  | _ => exact List.nil_subset _

/-- The identifiers of the items that a call has listed and not yet settled. -/
def Phase.held (phase : Phase) : List String :=
  phase.claims.map MobileSyncQueueItem.queueItemId

structure Claims (queue : OrderedMap String MobileSyncQueueItem) (calls : List Phase) : Prop where
  /-- A listed item is stored, and pending only as long as it has not been marked. -/
  stored : ∀ (i : Nat) phase item, calls[i]? = some phase → item ∈ phase.claims →
    ∃ stored, queue.get? item.queueItemId = some stored ∧
      stored.localEntityId = item.localEntityId ∧
      (stored.status = .pending → item ∈ phase.unmarked)
  sent : ∀ (i : Nat) phase item, calls[i]? = some phase → item ∈ phase.unmarked →
    item.status = .sent
  exclusive : Exclusive Phase.held calls

variable {queue : OrderedMap String MobileSyncQueueItem} {calls : List Phase}

theorem Claims.ne_of_ne (h : Claims queue calls) {i j : Nat} {one two : Phase}
    {item' : MobileSyncQueueItem} (hi : calls[i]? = some one) (hj : calls[j]? = some two)
    (hone : item ∈ one.claims) (htwo : item' ∈ two.claims) (hne : i ≠ j) :
    item.queueItemId ≠ item'.queueItemId := by
  intro heq
  have hheld : item.queueItemId ∈ two.held := heq ▸ List.mem_map_of_mem htwo
  exact hne (h.exclusive.apart i j one two _ hi hj (List.mem_map_of_mem hone) hheld)

theorem Claims.update (h : Claims queue calls) {next : Phase}
    {after : OrderedMap String MobileSyncQueueItem}
    (hstored : ∀ item ∈ next.claims, ∃ stored, after.get? item.queueItemId = some stored ∧
      stored.localEntityId = item.localEntityId ∧ (stored.status = .pending → item ∈ next.unmarked))
    (hsent : ∀ item ∈ next.unmarked, item.status = .sent)
    (hothers : ∀ (i : Nat) phase item, i ≠ index → calls[i]? = some phase → item ∈ phase.claims →
      after.get? item.queueItemId = queue.get? item.queueItemId)
    (hexclusive : Exclusive Phase.held (calls.set index next)) :
    Claims after (calls.set index next) where
  stored i phase item hcall hitem := by
    rcases getElem?_set_cases hcall with ⟨-, rfl⟩ | ⟨hne, hold⟩
    · exact hstored item hitem
    · rw [hothers i phase item hne hold hitem]
      exact h.stored i phase item hold hitem
  sent i phase item hcall hitem := by
    rcases getElem?_set_cases hcall with ⟨-, rfl⟩ | ⟨-, hold⟩
    · exact hsent item hitem
    · exact h.sent i phase item hold hitem
  exclusive := hexclusive

theorem Claims.drop (h : Claims queue calls) (index : Nat) {next : Phase}
    (hclaims : next.claims = []) (hunmarked : next.unmarked = []) :
    Claims queue (calls.set index next) := by
  refine h.update ?_ ?_ (fun _ _ _ _ _ _ => rfl) (h.exclusive.drop ?_)
  · rw [hclaims]
    exact fun item hitem => absurd hitem List.not_mem_nil
  · rw [hunmarked]
    exact fun item hitem => absurd hitem List.not_mem_nil
  · rw [Phase.held, hclaims, List.map_nil]

theorem Items.nodup_ids (h : Items s) :
    (s.queue.values.map MobileSyncQueueItem.queueItemId).Nodup := by
  have hkeys : s.queue.values.map MobileSyncQueueItem.queueItemId =
      s.queue.entries.map Prod.fst := by
    rw [OrderedMap.values, List.map_map]
    refine List.map_congr_left fun entry hentry => ?_
    exact (h.keyed entry.1 entry.2 (mem_entries_iff.mp hentry)).1
  rw [hkeys]
  exact s.queue.nodup

theorem Claims.listed (h : Claims s.queue s.calls) (hitems : Items s)
    {listed : List MobileSyncQueueItem} {now : String} (hall : listed.Perm s.queue.values)
    (hmarked : ListsMarked s (.listQueue index listed now)) :
    Claims s.queue (s.calls.set index (.mark session []
      ((listed.filter fun item => item.status = .pending).map (markSent now)))) := by
  -- a listed item is stored under its identifier, and pending
  have hpending : ∀ item ∈ (listed.filter fun item => item.status = .pending).map (markSent now),
      ∃ stored, s.queue.get? item.queueItemId = some stored ∧ stored.status = .pending ∧
        stored.localEntityId = item.localEntityId ∧ item.status = .sent := by
    intro item hitem
    obtain ⟨stored, hstored, rfl⟩ := List.mem_map.mp hitem
    obtain ⟨hmem, hstatus⟩ := List.mem_filter.mp hstored
    obtain ⟨id, hget⟩ := mem_values_iff.mp (hall.mem_iff.mp hmem)
    have hid : stored.queueItemId = id := (hitems.keyed id stored hget).1
    exact ⟨stored, hid ▸ hget, of_decide_eq_true hstatus, rfl, rfl⟩
  refine h.update ?_ ?_ (fun _ _ _ _ _ _ => rfl) (h.exclusive.set ?_ ?_)
  · intro item hitem
    obtain ⟨stored, hget, -, hlocal, -⟩ := hpending item hitem
    exact ⟨stored, hget, hlocal, fun _ => hitem⟩
  · intro item hitem
    obtain ⟨-, -, -, -, hsent⟩ := hpending item hitem
    exact hsent
  · have hlisted : (listed.map MobileSyncQueueItem.queueItemId).Nodup :=
      (hall.map _).nodup_iff.mpr hitems.nodup_ids
    have hsub : ((listed.filter fun item => item.status = .pending).map
        MobileSyncQueueItem.queueItemId).Nodup :=
      hlisted.sublist (List.filter_sublist.map _)
    rw [Phase.held, Phase.claims, List.nil_append, List.map_map]
    exact hsub
  · intro i phase key hne hcall hkey hown
    obtain ⟨item, hitem, rfl⟩ := List.mem_map.mp hkey
    obtain ⟨own, hmem, heq⟩ := List.mem_map.mp hown
    obtain ⟨stored, hget, hstatus, -, -⟩ := hpending own hmem
    obtain ⟨record, hrecord, -, hunmarked⟩ := h.stored i phase item hcall hitem
    rw [heq, hrecord] at hget
    cases hget
    exact hmarked phase (List.mem_of_getElem? hcall) item (hunmarked hstatus) stored hrecord hstatus

section

variable (h : Claims queue calls)
include h

theorem Claims.marked {marked left : List MobileSyncQueueItem}
    (hcall : calls[index]? = some (.mark session marked (item :: left))) :
    Claims (queue.set item.queueItemId item)
      (calls.set index (afterMark session (marked ++ [item]) left)) := by
  have hclaims : (afterMark session (marked ++ [item]) left).claims = marked ++ item :: left := by
    rw [claims_afterMark, List.append_assoc, List.singleton_append]
  have hitem : item ∈ marked ++ item :: left := List.mem_append_right _ (.head _)
  refine h.update ?_ ?_ ?_ (h.exclusive.shrink hcall ?_)
  · intro x hx
    rw [hclaims] at hx
    rw [unmarked_afterMark]
    by_cases hid : item.queueItemId = x.queueItemId
    · have hsame : item = x :=
        List.inj_on_of_nodup_map (h.exclusive.nodup index _ hcall) hitem hx hid
      subst hsame
      have hsent : item.status = .sent := h.sent index _ item hcall (.head _)
      refine ⟨item, get?_set_eq_some.mpr (.inl ⟨rfl, rfl⟩), rfl, fun hpending => ?_⟩
      rw [hsent] at hpending
      cases hpending
    · obtain ⟨stored, hget, hlocal, hunmarked⟩ := h.stored index _ x hcall hx
      refine ⟨stored, (get?_set_of_ne queue item hid).trans hget, hlocal, ?_⟩
      intro hpending
      refine (List.mem_cons.mp (hunmarked hpending)).resolve_left fun hsame => hid ?_
      rw [hsame]
  · intro x hx
    rw [unmarked_afterMark] at hx
    exact h.sent index _ x hcall (.tail item hx)
  · intro i phase x hne hphase hx
    exact get?_set_of_ne queue item (h.ne_of_ne hcall hphase hitem hx hne.symm)
  · rw [Phase.held, hclaims]
    exact List.Sublist.refl _

theorem Claims.answered {batch : List MobileSyncQueueItem} {conflicts : Option (List String)}
    (hcall : calls[index]? = some (.send session batch)) :
    Claims queue (calls.set index (afterSettle (batch.map (settle conflicts)))) := by
  refine h.update ?_ ?_ (fun _ _ _ _ _ _ => rfl) (h.exclusive.shrink hcall ?_)
  · intro x hx
    rw [claims_afterSettle] at hx
    obtain ⟨item, hitem, rfl⟩ := List.mem_map.mp hx
    obtain ⟨stored, hget, hlocal, hunmarked⟩ := h.stored index _ item hcall hitem
    exact ⟨stored, hget, hlocal, fun hpending => absurd (hunmarked hpending) List.not_mem_nil⟩
  · rw [unmarked_afterSettle]
    exact fun x hx => absurd hx List.not_mem_nil
  · rw [Phase.held, claims_afterSettle, List.map_map]
    exact List.Sublist.refl _

theorem Claims.settled {left : List MobileSyncQueueItem}
    (hcall : calls[index]? = some (.settle (item :: left))) :
    Claims (queue.set item.queueItemId item) (calls.set index (afterSettle left)) := by
  obtain ⟨hfirst, -⟩ := List.nodup_cons.mp (h.exclusive.nodup index _ hcall)
  refine h.update ?_ ?_ ?_ (h.exclusive.shrink hcall ?_)
  · intro x hx
    rw [claims_afterSettle] at hx
    have hid : item.queueItemId ≠ x.queueItemId := by
      intro heq
      exact hfirst (heq ▸ List.mem_map_of_mem hx)
    obtain ⟨stored, hget, hlocal, hunmarked⟩ :=
      h.stored index _ x hcall (.tail item hx)
    exact ⟨stored, (get?_set_of_ne queue item hid).trans hget, hlocal,
      fun hpending => absurd (hunmarked hpending) List.not_mem_nil⟩
  · rw [unmarked_afterSettle]
    exact fun x hx => absurd hx List.not_mem_nil
  · intro i phase x hne hphase hx
    exact get?_set_of_ne queue item (h.ne_of_ne hcall hphase (.head _) hx hne.symm)
  · rw [Phase.held, claims_afterSettle]
    exact List.sublist_cons_self _ _

theorem Claims.put (hfresh : queue.get? item.queueItemId = none) :
    Claims (queue.set item.queueItemId item) calls where
  stored i phase x hcall hx := by
    obtain ⟨stored, hget, hrest⟩ := h.stored i phase x hcall hx
    have hid : item.queueItemId ≠ x.queueItemId := by
      intro heq
      rw [heq, hget] at hfresh
      cases hfresh
    exact ⟨stored, (get?_set_of_ne queue item hid).trans hget, hrest⟩
  sent := h.sent
  exclusive := h.exclusive

theorem Claims.concat (hclaims : phase.claims = []) (hunmarked : phase.unmarked = []) :
    Claims queue (calls ++ [phase]) := by
  refine ⟨?_, ?_, h.exclusive.concat ?_⟩
  · intro i found item hfound hitem
    rcases getElem?_concat_cases hfound with ⟨-, rfl⟩ | ⟨-, hold⟩
    · rw [hclaims] at hitem
      exact absurd hitem List.not_mem_nil
    · exact h.stored i found item hold hitem
  · intro i found item hfound hitem
    rcases getElem?_concat_cases hfound with ⟨-, rfl⟩ | ⟨-, hold⟩
    · rw [hunmarked] at hitem
      exact absurd hitem List.not_mem_nil
    · exact h.sent i found item hold hitem
  · rw [Phase.held, hclaims, List.map_nil]

end

theorem Claims.step (h : Claims s.queue s.calls) (hitems : Items s) (hmarked : ListsMarked s label)
    (hstep : MobileQueue.step s label = some t) : Claims t.queue t.calls := by
  cases effect_of_step hstep with
  | dropped _ index phase drafts hnone hunmarked hnew => exact h.drop index hnone hunmarked
  | read index localEntityId queueItemId draft hcall hfound hfresh => exact h.drop index rfl rfl
  | queued index localEntityId draft item hcall =>
    exact (h.put (hitems.fresh index _ item hcall rfl).2).drop index rfl rfl
  | listed index session listed now hall => exact h.listed hitems hall hmarked
  | marked index session marked item left hcall => exact h.marked hcall
  | answered index session batch conflicts hcall => exact h.answered hcall
  | settled index item left hcall => exact h.settled hcall
  | called _ phase hnone hunmarked hnew => exact h.concat hnone hunmarked
  | written draft => exact h

theorem claims_start (store : Store) : Claims (start store).queue (start store).calls where
  stored i phase item hcall := by cases hcall
  sent i phase item hcall := by cases hcall
  exclusive := Exclusive.nil

theorem invariants_of_run {store : Store} {labels : List Label} {last : Runtime}
    (hmeets : RunMeets step (fun s label => EnqueuesOnce s label ∧ ListsMarked s label)
      (start store) labels)
    (hrun : run step (start store) labels = some last) :
    Items last ∧ Claims last.queue last.calls := by
  refine run_invariant_of_meets (I := fun s => Items s ∧ Claims s.queue s.calls) ?_
    ⟨items_start store, claims_start store⟩ hmeets hrun
  rintro s label t ⟨hitems, hclaims⟩ ⟨honce, hmarked⟩ hstep
  refine ⟨hitems.step honce (fun i phase item hcall hitem => ?_) hstep,
    hclaims.step hitems hmarked hstep⟩
  obtain ⟨stored, hget, hlocal, -⟩ := hclaims.stored i phase item hcall hitem
  exact ⟨stored, hget, hlocal⟩

theorem Items.nodup (h : Items s) :
    (s.queue.values.map MobileSyncQueueItem.localEntityId).Nodup := by
  rw [OrderedMap.values, List.map_map]
  refine List.Nodup.map_on ?_ s.queue.nodup.of_map
  intro entry hentry entry' hentry' heq
  have hget := mem_entries_iff.mp hentry
  have hget' := mem_entries_iff.mp hentry'
  have hid : entry.1 = entry'.1 := h.distinct entry.1 entry'.1 entry.2 entry'.2 hget hget' heq
  rw [hid, hget'] at hget
  exact Prod.ext hid (Option.some.inj hget).symm

/-- While no draft is read that has an item, and the queue is not listed before the items of another
submission are marked: one item for each draft, and one batch in flight for each item. -/
theorem one_item_one_batch (store : Store) (labels : List Label) (last : Runtime)
    (hmeets : RunMeets step (fun s label => EnqueuesOnce s label ∧ ListsMarked s label)
      (start store) labels)
    (hrun : run step (start store) labels = some last) :
    (last.queue.values.map MobileSyncQueueItem.localEntityId).Nodup ∧
      ∀ (i j : Nat) one two item item', last.calls[i]? = some one → last.calls[j]? = some two →
        item ∈ one.inFlight → item' ∈ two.inFlight → item.queueItemId = item'.queueItemId →
        i = j := by
  obtain ⟨hitems, hclaims⟩ := invariants_of_run hmeets hrun
  refine ⟨hitems.nodup, fun i j one two item item' hi hj hone htwo heq => ?_⟩
  by_contra hne
  exact hclaims.ne_of_ne hi hj (inFlight_subset_claims one hone) (inFlight_subset_claims two htwo)
    hne heq

def finalizedDraft : StoredDraft where
  localId := "d1"
  entityType := "ait"
  session := agent
  reservedNumber := 1
  reservationId := "r1"
  idempotencyKey := "idem"
  normativePackage := rules
  localContentHash := "sha256:"
  createdAt := "2026-05-20T12:00:00.000Z"
  status := .finalized
  updatedAt := "2026-05-20T12:00:00.000Z"

def oneDraft : Store where
  session := some agent
  drafts := OrderedMap.empty.set "d1" finalizedDraft
  queue := .empty
  keyed _ h := by cases h
  distinct := List.nodup_nil

def draftItem (queueItemId : String) : MobileSyncQueueItem := itemOf finalizedDraft queueItemId

/-- The calls up to the first put: the draft is read. -/
def enqueueReads (index : Nat) (queueItemId : String) : List Label :=
  [.enqueue "d1", .readDraft index queueItemId]

/-- A call of `enqueue` from start to end. -/
def wholeEnqueue (index : Nat) (queueItemId : String) : List Label :=
  enqueueReads index queueItemId ++ [.putItem index, .putQueued index "2026-05-20T12:01:00.000Z"]

def submitReads (index : Nat) (listed : List MobileSyncQueueItem) : List Label :=
  [.submitPendingQueue, .readSession index, .listQueue index listed "2026-05-20T12:02:00.000Z"]

def itemsAfter (labels : List Label) : Option (List String) :=
  (run step (start oneDraft) labels).map fun s =>
    s.queue.values.map MobileSyncQueueItem.localEntityId

def batchesAfter (labels : List Label) : Option (List (List String)) :=
  (run step (start oneDraft) labels).map fun s =>
    s.calls.map fun phase => phase.inFlight.map MobileSyncQueueItem.queueItemId

/-- Two calls of `enqueue` that both read the draft leave two items, and so does one that is
repeated after its second put; two submissions that list before either marks send the item twice. -/
theorem calls_share_draft_and_item :
    itemsAfter (enqueueReads 0 "q1" ++ enqueueReads 1 "q2" ++ [.putItem 0, .putItem 1]) =
      some ["d1", "d1"] ∧
    itemsAfter (enqueueReads 0 "q1" ++ [.putItem 0, .fail 0] ++ wholeEnqueue 1 "q2") =
      some ["d1", "d1"] ∧
    batchesAfter (wholeEnqueue 0 "q1" ++ submitReads 1 [draftItem "q1"] ++
      submitReads 2 [draftItem "q1"] ++ [.markItem 1, .markItem 2]) =
      some [[], ["q1"], ["q1"]] := by
  decide

/-- A second submission starts after the first has marked its item. -/
def separateSubmissions : List Label :=
  wholeEnqueue 0 "q1" ++ submitReads 1 [draftItem "q1"] ++ [.markItem 1] ++
    submitReads 2 [markSent "2026-05-20T12:02:00.000Z" (draftItem "q1")]

theorem one_item_one_batch_run :
    ∃ last, run step (start oneDraft) separateSubmissions = some last ∧
      (last.queue.values.map MobileSyncQueueItem.localEntityId).Nodup :=
  ⟨_, rfl, (one_item_one_batch oneDraft separateSubmissions _ (by decide) rfl).1⟩

end Stynx.MobileQueue
