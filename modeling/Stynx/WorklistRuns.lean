import Stynx.Worklist

/-!
# Runs of the worklist

The life of an item is read off its events: it is enqueued, taken, moved from
one assignee to another, released, completed or canceled.
-/

namespace Stynx.Worklist

open ReadCommitted OrderedMap
open TransitionRuns

section

/-- The event gives an item that nobody has to somebody. -/
def ItemEvent.takes (event : ItemEvent) : Bool :=
  event.fromAssignee.isNone && event.toAssignee.isSome

/-- The event gives an item back. -/
def ItemEvent.releases (event : ItemEvent) : Bool :=
  event.kind = .release || event.kind = .override && event.payload = .operation .release none

/-- One step in the life of an item, and its event. -/
inductive Transition (old : Item) : ItemUpdate → ItemEvent → Prop
  | take (user : Nat) (event : ItemEvent) (pending : old.status = .pending)
      (kind : event.kind ∈ [EventKind.claim, .assign, .reassign, .override])
      (hto : event.toAssignee = some user) : Transition old (.claim user) event
  | move (user : Nat) (event : ItemEvent) (claimed : old.status = .claimed)
      (kind : event.kind ∈ [EventKind.reassign, .override])
      (hfrom : event.fromAssignee = old.assigneeId)
      (hto : event.toAssignee = some user) : Transition old (.claim user) event
  /-- A claimed item is given back. -/
  | release (event : ItemEvent) (claimed : old.status = .claimed) (kind : event.releases = true)
      (hto : event.toAssignee = none) : Transition old .release event
  | complete (event : ItemEvent) (claimed : old.status = .claimed)
      (kind : event.kind ∈ [EventKind.complete, .override]) (hto : event.toAssignee = none) :
      Transition old .complete event
  | cancel (event : ItemEvent) (isOpen : old.isOpen = true) (kind : event.kind = .cancel)
      (hto : event.toAssignee = none) : Transition old .cancel event

/-- The events of an item and the row that they lead to. -/
inductive History : List ItemEvent → Item → Prop
  /-- A new item is pending and has no assignee. -/
  | enqueued (events : List ItemEvent) (item : Item)
      (kinds : ∀ event ∈ events, event.kind ∈ [EventKind.enqueue, .deadlineSet])
      (unassigned : ∀ event ∈ events, event.toAssignee = none) (pending : item.status = .pending)
      (hnone : item.assigneeId = none) : History events item
  /-- The life goes on. -/
  | step (events : List ItemEvent) (old : Item) (update : ItemUpdate) (event : ItemEvent)
      (earlier : History events old) (last : Transition old update event) :
      History (events ++ [event]) (update.apply old)

variable {events before after : List ItemEvent} {item : Item}

theorem History.assigned (h : History events item) :
    (item.status = .pending → item.assigneeId = none) ∧
      (item.status = .claimed → item.assigneeId.isSome = true) := by
  cases h with
  | enqueued _ _ kinds unassigned pending hnone =>
    refine ⟨fun _ => hnone, ?_⟩
    intro hclaimed
    rw [pending] at hclaimed
    cases hclaimed
  | step events old update event earlier last =>
    cases last with
    | take | move =>
      refine ⟨?_, fun _ => rfl⟩
      intro hpending
      cases hpending
    | release =>
      refine ⟨fun _ => rfl, ?_⟩
      intro hclaimed
      cases hclaimed
    | complete | cancel =>
      constructor
      · intro hpending
        cases hpending
      · intro hclaimed
        cases hclaimed

variable {event : ItemEvent}

theorem cut_concat {last : ItemEvent} (h : events ++ [last] = before ++ event :: after) :
    after = [] ∧ event = last ∨ ∃ rest, after = rest ++ [last] ∧ events = before ++ event :: rest := by
  rcases List.eq_nil_or_concat after with rfl | ⟨rest, x, rfl⟩
  · have hlast := List.append_inj' h rfl
    exact .inl ⟨rfl, (List.cons.inj hlast.2).1.symm⟩
  · rw [List.concat_eq_append, ← List.cons_append, ← List.append_assoc] at h
    have hlast := List.append_inj' h rfl
    exact .inr ⟨rest, by rw [List.concat_eq_append, (List.cons.inj hlast.2).1], hlast.1⟩

theorem History.not_pending (h : History events item) (hcut : events = before ++ event :: after)
    (htakes : event.takes = true) (hkept : ∀ later ∈ after, later.releases = false) :
    item.status ≠ .pending := by
  induction h generalizing before after event with
  | enqueued events item kinds unassigned pending hnone =>
    have hto := unassigned event (by rw [hcut]; simp)
    simp [ItemEvent.takes, hto] at htakes
  | step events old update last earlier htransition ih =>
    rcases cut_concat hcut with ⟨rfl, rfl⟩ | ⟨rest, rfl, hevents⟩
    · cases htransition with
      | take | move =>
        intro hpending
        cases hpending
      | release _ _ _ hto | complete _ _ _ hto | cancel _ _ _ hto =>
        simp [ItemEvent.takes, hto] at htakes
    · have hold := ih hevents htakes fun later hlater => hkept later (List.mem_append_left _ hlater)
      have hlast := hkept last (List.mem_concat_self)
      cases htransition with
      | take _ _ pending => exact absurd pending hold
      | release _ _ kind =>
        rw [kind] at hlast
        cases hlast
      | move | complete | cancel =>
        intro hpending
        cases hpending

theorem History.released_between (h : History events item) {between : List ItemEvent}
    {first second : ItemEvent} (hcut : events = before ++ first :: (between ++ second :: after))
    (hfirst : first.takes = true) (hsecond : second.takes = true) :
    ∃ event ∈ between, event.releases = true := by
  induction h generalizing before between after first second with
  | enqueued events item kinds unassigned pending hnone =>
    have hto := unassigned first (by rw [hcut]; simp)
    simp [ItemEvent.takes, hto] at hfirst
  | step events old update last earlier htransition ih =>
    rw [← List.cons_append, ← List.append_assoc] at hcut
    rcases cut_concat hcut with ⟨rfl, rfl⟩ | ⟨rest, rfl, hevents⟩
    · have hevents : events = before ++ first :: between := (List.append_inj' hcut rfl).1
      by_contra hnone
      have hkept : ∀ later ∈ between, later.releases = false := by
        intro later hlater
        rw [Bool.eq_false_iff]
        exact fun hreleases => hnone ⟨later, hlater, hreleases⟩
      have hold := earlier.not_pending hevents hfirst hkept
      cases htransition with
      | take _ _ pending => exact hold pending
      | move _ _ claimed _ hfrom =>
        have hsome := earlier.assigned.2 claimed
        rw [← hfrom] at hsome
        simp [ItemEvent.takes, Option.isNone_eq_false_iff.mpr hsome] at hsecond
      | release _ _ _ hto | complete _ _ _ hto | cancel _ _ _ hto =>
        simp [ItemEvent.takes, hto] at hsecond
    · rw [List.append_assoc, List.cons_append] at hevents
      exact ih hevents hfirst hsecond

end

section

variable (queues : OrderedMap Nat Queue) (hash : String → Int)

/-- What holds of the committed tables. -/
structure Sound (db : Db) : Prop where
  /-- A row is where its life has led it. -/
  history : ∀ itemId row, db.items.get? itemId = some row → History (db.eventsOf itemId) row
  /-- There are no events without a row. -/
  unborn : ∀ itemId, db.items.get? itemId = none → db.eventsOf itemId = []
  /-- No user has more claimed items than the limit. -/
  capacity : ∀ queueId user limit, limitOf queues queueId = some limit →
    db.openClaimCount queueId user ≤ limit

/-- What one call writes to an item, and its events. -/
inductive Written (db : Db) : RowWrite → Nat → Item → List ItemEvent → Prop
  | insert (itemId : Nat) (row : Item) (events : List ItemEvent)
      (hnone : db.items.get? itemId = none) (history : History events row)
      (pending : row.status = .pending) : Written db (.insertItem itemId row) itemId row events
  | update (itemId : Nat) (old : Item) (update : ItemUpdate) (event : ItemEvent)
      (hold : db.items.get? itemId = some old) (htransition : Transition old update event) :
      Written db (.updateItem itemId update) itemId (update.apply old) [event]

/-- Each new claim of a row has its place below the limit, which is locked. -/
def HasRoom (db : Db) (held : LockKey → Prop) (itemId : Nat) (row : Item) : Prop :=
  ∀ queueId user limit, row.claimedBy queueId user = true →
    ((db.items.get? itemId).all fun old => !old.claimedBy queueId user) = true →
    limitOf queues queueId = some limit →
    held (capacityKey hash queueId user) ∧ db.openClaimCount queueId user < limit

/-- The one change that a call makes. -/
structure Step (db : Db) (held : LockKey → Prop) (write : RowWrite) (itemId : Nat) (row : Item)
    (events : List ItemEvent) : Prop where
  /-- The row is locked. -/
  owns : held (.item itemId)
  written : Written db write itemId row events
  about : ∀ event ∈ events, event.itemId = itemId
  room : HasRoom queues hash db held itemId row

/-- A call knows what it is about to write. -/
def TargetOk (db : Db) (held : LockKey → Prop) (call : Call) (capacity : Option (Nat × Nat)) :
    Target → Prop
  | .item mutation =>
    held (.item mutation.itemId) ∧ ∃ old, db.items.get? mutation.itemId = some old ∧
      Transition old mutation.update (mutation.event call) ∧
      ∀ queueId user, (mutation.update.apply old).claimedBy queueId user = true →
        old.claimedBy queueId user = false → capacity = some (queueId, user)
  | .next queueId user kind _ =>
    capacity = some (queueId, user) ∧ kind ∈ [EventKind.claim, .assign]

/-- The capacity that a call has asserted. -/
def Admits (db : Db) (held : LockKey → Prop) (capacity : Option (Nat × Nat)) : Prop :=
  ∀ queueId user limit, capacity = some (queueId, user) → limitOf queues queueId = some limit →
    held (capacityKey hash queueId user) ∧ db.openClaimCount queueId user < limit

/-- What a call may assert at its statements. -/
def Asserted (db : Db) (held : LockKey → Prop) (session : Session RowWrite CallPhase) : Prop :=
  match session.phase with
  | .idle | .called _ | .assignLocked _ _ _ => session.writes = []
  | .rowLocked _ itemId => session.writes = [] ∧ held (.item itemId)
  | .checking call target capacity =>
    session.writes = [] ∧ TargetOk db held call capacity target
  | .capacityLocked call target queueId user limit =>
    session.writes = [] ∧ TargetOk db held call (some (queueId, user)) target ∧
      limitOf queues queueId = some limit ∧ held (capacityKey hash queueId user)
  | .admitted call target capacity =>
    session.writes = [] ∧ TargetOk db held call capacity target ∧
      Admits queues hash db held capacity
  | .logging rest =>
    ∃ write itemId row done, session.writes = write :: done.map .insertEvent ∧
      Step queues hash db held write itemId row (done ++ rest)
  | .returned =>
    session.writes = [] ∨ ∃ write itemId row events,
      session.writes = write :: events.map .insertEvent ∧
        Step queues hash db held write itemId row events

end

section

variable {queues : OrderedMap Nat Queue} {hash : String → Int}

theorem foldl_insertEvent (events : List ItemEvent) (db : Db) :
    (events.map RowWrite.insertEvent).foldl RowWrite.apply db =
      ⟨db.items, db.events ++ events⟩ := by
  induction events generalizing db with
  | nil => simp
  | cons event rest ih =>
    rw [List.map_cons, List.foldl_cons, ih]
    simp [RowWrite.apply]

variable {db : Db} {held : LockKey → Prop} {write : RowWrite} {itemId : Nat} {row : Item}
  {events : List ItemEvent}

section

variable (h : Step queues hash db held write itemId row events)
include h

theorem Step.view {done : List ItemEvent} :
    (write :: done.map RowWrite.insertEvent).foldl RowWrite.apply db =
      ⟨db.items.set itemId row, db.events ++ done⟩ := by
  have hwrite : write.apply db = ⟨db.items.set itemId row, db.events⟩ := by
    cases h.written with
    | insert => rfl
    | update _ old update event hold _ => rw [RowWrite.apply, hold]
  rw [List.foldl_cons, hwrite, foldl_insertEvent]

theorem Step.count {queueId limit : Nat} (user : Nat) (hlimit : limitOf queues queueId = some limit)
    (log : List ItemEvent) :
    Db.openClaimCount ⟨db.items.set itemId row, log⟩ queueId user ≤ db.openClaimCount queueId user ∨
      held (capacityKey hash queueId user) ∧ db.openClaimCount queueId user < limit ∧
        Db.openClaimCount ⟨db.items.set itemId row, log⟩ queueId user =
          db.openClaimCount queueId user + 1 := by
  have hset := OrderedMap.countP_set (fun entry => Item.claimedBy queueId user entry.2) db.items
    itemId row
  have hroom := h.room queueId user limit
  unfold Db.openClaimCount at hroom ⊢
  dsimp only
  cases hrow : row.claimedBy queueId user with
  | false =>
    simp only [List.countP_cons, hrow, List.countP_nil] at hset
    left
    simp at hset
    omega
  | true =>
    simp only [List.countP_cons, hrow, List.countP_nil] at hset
    cases hold : db.items.get? itemId with
    | none =>
      obtain ⟨hheld, hlt⟩ := hroom hrow (by simp [hold]) hlimit
      rw [hold] at hset
      simp at hset
      exact .inr ⟨hheld, hlt, hset⟩
    | some old =>
      rw [hold] at hset
      cases hclaimed : old.claimedBy queueId user with
      | true =>
        simp [hclaimed] at hset
        left
        omega
      | false =>
        obtain ⟨hheld, hlt⟩ := hroom hrow (by simp [hold, hclaimed]) hlimit
        simp [hclaimed] at hset
        exact .inr ⟨hheld, hlt, hset⟩

theorem Step.eventsOf (other : Nat) (items : OrderedMap Nat Item) :
    Db.eventsOf ⟨items, db.events ++ events⟩ other =
      db.eventsOf other ++ if other = itemId then events else [] := by
  rw [Db.eventsOf, Db.eventsOf, List.filter_append]
  congr 1
  split_ifs with hother
  · rw [List.filter_eq_self]
    intro event hevent
    simp [h.about event hevent, hother]
  · rw [List.filter_eq_nil_iff]
    intro event hevent
    simp [h.about event hevent, Ne.symm hother]

end

theorem Sound.step (hs : Sound queues db) (h : Step queues hash db held write itemId row events) :
    Sound queues ⟨db.items.set itemId row, db.events ++ events⟩ where
  history other current hget := by
    rw [h.eventsOf]
    rcases get?_set_eq_some.mp hget with ⟨rfl, rfl⟩ | ⟨hne, hother⟩
    · rw [if_pos rfl]
      cases h.written with
      | insert _ _ _ hnone history _ =>
        rw [hs.unborn _ hnone]
        exact history
      | update _ old update event hold htransition =>
        exact .step _ _ _ _ (hs.history _ _ hold) htransition
    · rw [if_neg (Ne.symm hne), List.append_nil]
      exact hs.history other current hother
  unborn other hnone := by
    rw [get?_set] at hnone
    split_ifs at hnone with hother
    rw [h.eventsOf, if_neg (Ne.symm hother), List.append_nil]
    exact hs.unborn other hnone
  capacity queueId user limit hlimit := by
    have hbefore := hs.capacity queueId user limit hlimit
    rcases h.count user hlimit (db.events ++ events) with hle | ⟨-, hlt, heq⟩
    · exact hle.trans hbefore
    · omega

end

section

variable {queues : OrderedMap Nat Queue} {call : Call}

/-- What a function for one item writes continues the life of the item. -/
structure PlanOk (call : Call) (itemId : Nat) (row : Item) (mutation : Mutation)
    (capacity : Option (Nat × Nat)) : Prop where
  itemId : mutation.itemId = itemId
  transition : Transition row mutation.update (mutation.event call)
  /-- The capacity of a new claim is asserted. -/
  capacity : ∀ queueId user, (mutation.update.apply row).claimedBy queueId user = true →
    row.claimedBy queueId user = false → capacity = some (queueId, user)

variable {row : Item} {itemId : Nat} {mutation : Mutation} {capacity : Option (Nat × Nat)}
  {reason : Option String}

variable {queueId : Nat} {force : Bool}

theorem claimedBy_claim {user other : Nat}
    (h : ((ItemUpdate.claim user).apply row).claimedBy queueId other = true) :
    row.queueId = queueId ∧ user = other := by
  simp only [Item.claimedBy, Bool.and_eq_true] at h
  exact ⟨of_decide_eq_true h.1.1, Option.some.inj (of_decide_eq_true h.1.2)⟩

theorem itemClaim_planOk {user : Option Nat}
    (h : itemClaim queues call itemId user row = .ok (.write mutation capacity)) :
    PlanOk call itemId row mutation capacity := by
  rw [itemClaim] at h
  split_ifs at h with hstatus
  split at h
  · cases h
  · rename_i userId _
    cases h
    refine ⟨rfl, .take userId _ (not_not.mp hstatus) (by simp [Mutation.event]) rfl, ?_⟩
    intro queueId other hclaimed _
    obtain ⟨rfl, rfl⟩ := claimedBy_claim hclaimed
    rfl

theorem itemRelease_planOk
    (h : itemRelease queues call itemId reason force row = .ok (.write mutation capacity)) :
    PlanOk call itemId row mutation capacity := by
  rw [itemRelease] at h
  split at h
  · cases h
  · rename_i hstatus
    split at h
    · cases h
    · cases h
      refine ⟨rfl, .release _ (not_not.mp hstatus) ?_ rfl, ?_⟩
      · cases force <;> rfl
      · intro queueId user hclaimed _
        simp [Item.claimedBy, ItemUpdate.apply] at hclaimed

theorem itemComplete_planOk {note payload : Option String}
    (h : itemComplete queues call itemId note payload force row = .ok (.write mutation capacity)) :
    PlanOk call itemId row mutation capacity := by
  rw [itemComplete] at h
  split at h
  · cases h
  · split at h
    · cases h
    · rename_i hstatus
      split at h
      · cases h
      · cases h
        refine ⟨rfl, .complete _ (not_not.mp hstatus) ?_ rfl, ?_⟩
        · cases force <;> simp [Mutation.event]
        · intro queueId user hclaimed _
          simp [Item.claimedBy, ItemUpdate.apply] at hclaimed

theorem itemCancel_planOk
    (h : itemCancel queues call itemId reason row = .ok (.write mutation capacity)) :
    PlanOk call itemId row mutation capacity := by
  rw [itemCancel] at h
  split_ifs at h with hopen
  split at h
  · cases h
  · cases h
    refine ⟨rfl, .cancel _ (by simpa using hopen) rfl rfl, ?_⟩
    intro queueId user hclaimed _
    simp [Item.claimedBy, ItemUpdate.apply] at hclaimed

theorem itemReassign_planOk {toUser : Nat} {override : Bool}
    (hassigned : row.status = .pending → row.assigneeId = none)
    (h : itemReassign queues call itemId toUser reason override row =
      .ok (.write mutation capacity)) : PlanOk call itemId row mutation capacity := by
  rw [itemReassign] at h
  split at h
  · cases h
  · rename_i hclosed
    have hopen : row.status = .pending ∨ row.status = .claimed := by
      rw [Item.isOpen] at hclosed
      exact or_iff_not_imp_left.mpr (by simpa using hclosed)
    split at h
    · cases h
    · split at h
      · cases h
      · cases h
        refine ⟨rfl, ?_, ?_⟩
        · rcases hopen with hpending | hclaimed
          · exact .take toUser _ hpending (by cases override <;> simp [Mutation.event]) rfl
          · exact .move toUser _ hclaimed (by cases override <;> simp [Mutation.event]) rfl rfl
        · intro queueId user hclaimed hbefore
          obtain ⟨rfl, rfl⟩ := claimedBy_claim hclaimed
          split_ifs with hsame
          · rcases hopen with hpending | hstatus
            · rw [hassigned hpending] at hsame
              cases hsame
            · simp [Item.claimedBy, hsame, hstatus] at hbefore
          · rfl

theorem planOf_planOk (hassigned : row.status = .pending → row.assigneeId = none)
    (h : planOf queues call itemId row = .ok (.write mutation capacity)) :
    PlanOk call itemId row mutation capacity := by
  rw [planOf] at h
  split at h
  · exact itemClaim_planOk h
  · exact itemRelease_planOk h
  · exact itemComplete_planOk h
  · exact itemCancel_planOk h
  · exact itemReassign_planOk hassigned h
  · cases h

theorem Db.nextItem_spec {db : Db} {free : LockKey → Bool}
    (h : db.nextItem free queueId = some (itemId, row)) :
    db.items.get? itemId = some row ∧ row.queueId = queueId ∧ row.status = .pending := by
  have hmem := List.mem_of_mem_head? h
  rw [List.mem_insertionSort, List.mem_filter] at hmem
  obtain ⟨hentry, hpicked⟩ := hmem
  simp only [Bool.and_eq_true, decide_eq_true_eq] at hpicked
  exact ⟨mem_entries_iff.mp hentry, hpicked.1.1, hpicked.1.2⟩

theorem itemEnqueue_history {queueCode : String} {entityType entityId : Option String}
    {priority dueAt : Option Int} {item : Item} {events : List ItemEvent}
    (h : itemEnqueue queues call queueCode entityType entityId priority dueAt =
      .ok (item, events)) :
    History events item ∧ item.status = .pending ∧ ∀ event ∈ events, event.itemId = call.itemId := by
  rw [itemEnqueue] at h
  split_ifs at h
  split at h
  · cases h
  · split at h
    · cases h
    · rename_i due _
      cases h
      have hevents : ∀ event ∈ enqueueEvents call (entityType.getD "") (entityId.getD "") due,
          event.kind ∈ [EventKind.enqueue, .deadlineSet] ∧ event.toAssignee = none ∧
            event.itemId = call.itemId := by
        intro event hevent
        cases due with
        | none =>
          simp [enqueueEvents] at hevent
          simp [hevent]
        | some due =>
          simp [enqueueEvents] at hevent
          rcases hevent with rfl | rfl <;> simp
      exact ⟨.enqueued _ _ (fun event hevent => (hevents event hevent).1)
        (fun event hevent => (hevents event hevent).2.1) rfl rfl, rfl,
        fun event hevent => (hevents event hevent).2.2⟩

end

variable {queues : OrderedMap Nat Queue} {hash : String → Int}

inductive FirstTurn (db : Db) (call : Call) : Turn LockKey RowWrite CallPhase → Prop
  | insert (item : Item) (events : List ItemEvent) (hnone : db.items.get? call.itemId = none)
      (history : History events item) (pending : item.status = .pending)
      (about : ∀ event ∈ events, event.itemId = call.itemId) :
      FirstTurn db call (.write (.insertItem call.itemId item) (.logging events))
  /-- The next item of a queue is wanted. -/
  | next (queueId user : Nat) (kind : EventKind) (payload : EventPayload)
      (hkind : kind ∈ [EventKind.claim, .assign]) :
      FirstTurn db call
        (.go (.checking call (.next queueId user kind payload) (some (queueId, user))))
  /-- The selection of a worker is locked. -/
  | assign (key : LockKey) (queueId : Nat) (queue : Queue) :
      FirstTurn db call (.lock key (.assignLocked call queueId queue))
  | row (itemId : Nat) : FirstTurn db call (.lock (.item itemId) (.rowLocked call itemId))

variable {db next : Db} {call : Call} {held held' : LockKey → Prop} {free : LockKey → Bool}
  {write : RowWrite} {itemId : Nat} {row : Item} {events : List ItemEvent}
  {capacity : Option (Nat × Nat)}

theorem callTurn_first {turn : Turn LockKey RowWrite CallPhase}
    (h : callTurn queues hash db call = .ok turn) : FirstTurn db call turn := by
  rw [callTurn] at h
  split at h
  · split at h
    · cases h
    · rename_i item events henqueue
      split at h
      · cases h
      · rename_i hfresh
        cases h
        obtain ⟨hhistory, hpending, habout⟩ := itemEnqueue_history henqueue
        exact .insert item events (get?_eq_none_of_not_has (by simpa using hfresh))
          hhistory hpending habout
  · split at h
    · cases h
    · cases h
      exact .next _ _ _ _ (by simp)
  · split at h
    · cases h
    · cases h
      exact .next _ _ _ _ (by simp)
  · split at h
    · cases h
    · split at h
      · cases h
      · cases h
        exact .assign _ _ _
  all_goals
    split at h
    · cases h
    · cases h
      exact .row _

variable {session : Session RowWrite CallPhase} {action : Action} {target : Target}

theorem Asserted.committed (h : Asserted queues hash db held session)
    (hphase : session.phase = .returned) :
    session.view (worklistProgram queues hash) db = db ∨
      ∃ write itemId row events, Step queues hash db held write itemId row events ∧
        session.view (worklistProgram queues hash) db =
          ⟨db.items.set itemId row, db.events ++ events⟩ := by
  rw [Asserted, hphase] at h
  rcases h with hnothing | ⟨write, itemId, row, events, hwrites, hstep⟩
  · left
    rw [Session.view, hnothing]
    rfl
  · right
    refine ⟨write, itemId, row, events, hstep, ?_⟩
    rw [Session.view, hwrites]
    exact hstep.view

theorem phase_of_commit {phase next : CallPhase}
    (h : callStatement queues hash db free phase action = some (.commit next)) :
    phase = .returned := by
  cases phase with
  | returned => rfl
  | idle => cases action <;> cases h
  | called call =>
    rw [callStatement] at h
    cases hturn : callTurn queues hash db call with
    | error failure =>
      rw [hturn] at h
      cases h
    | ok turn =>
      rw [hturn] at h
      cases h
      cases callTurn_first hturn
  | rowLocked call itemId =>
    simp only [callStatement, rowTurn] at h
    split at h
    · cases h
    · split at h <;> cases h
  | assignLocked call queueId queue =>
    simp only [callStatement, assignTurn] at h
    split at h
    · split at h
      · cases h
      · split at h
        · split at h <;> cases h
        · cases h
    · cases h
  | checking call target capacity =>
    simp only [callStatement] at h
    split at h
    · cases h
    · split at h <;> cases h
  | capacityLocked call target queueId user limit =>
    simp only [callStatement] at h
    split at h <;> cases h
  | admitted call target capacity =>
    cases target with
    | item mutation => cases h
    | next queueId user kind payload =>
      simp only [callStatement, updateTurn] at h
      split at h <;> cases h
  | logging events =>
    cases events with
    | nil => cases h
    | cons event rest =>
      simp only [callStatement] at h
      split at h <;> cases h

/-- A commit of another call, seen by a call that owns some keys. -/
structure Apart (db next : Db) (held : LockKey → Prop) (queues : OrderedMap Nat Queue)
    (hash : String → Int) : Prop where
  rows : ∀ itemId, held (.item itemId) → next.items.get? itemId = db.items.get? itemId
  counts : ∀ queueId user limit, limitOf queues queueId = some limit →
    held (capacityKey hash queueId user) →
    next.openClaimCount queueId user ≤ db.openClaimCount queueId user

theorem Step.apart (h : Step queues hash db held' write itemId row events)
    (hapart : ∀ key, held key → ¬held' key) (log : List ItemEvent) :
    Apart db ⟨db.items.set itemId row, log⟩ held queues hash where
  rows other hheld := by
    refine get?_set_of_ne _ _ ?_
    rintro rfl
    exact hapart _ hheld h.owns
  counts queueId user limit hlimit hheld := by
    rcases h.count user hlimit log with hle | ⟨hheld', -⟩
    · exact hle
    · exact absurd hheld' (hapart _ hheld)

theorem Apart.targetOk (h : Apart db next held queues hash)
    (htarget : TargetOk db held call capacity target) :
    TargetOk next held call capacity target := by
  cases target with
  | item mutation =>
    obtain ⟨hheld, old, hold, htransition, hcapacity⟩ := htarget
    exact ⟨hheld, old, (h.rows _ hheld).trans hold, htransition, hcapacity⟩
  | next => exact htarget

theorem Apart.admits (h : Apart db next held queues hash)
    (hadmits : Admits queues hash db held capacity) :
    Admits queues hash next held capacity := by
  intro queueId user limit hcapacity hlimit
  obtain ⟨hheld, hlt⟩ := hadmits queueId user limit hcapacity hlimit
  exact ⟨hheld, (h.counts queueId user limit hlimit hheld).trans_lt hlt⟩

theorem Apart.step (h : Apart db next held queues hash)
    (hstep : Step queues hash db held write itemId row events) :
    Step queues hash next held write itemId row events where
  owns := hstep.owns
  written := by
    have hrow := h.rows itemId hstep.owns
    cases hstep.written with
    | insert _ _ _ hnone history pending => exact .insert _ _ _ (hrow.trans hnone) history pending
    | update _ old update event hold htransition =>
      exact .update _ old update event (hrow.trans hold) htransition
  about := hstep.about
  room queueId user limit hclaimed hnew hlimit := by
    rw [h.rows itemId hstep.owns] at hnew
    obtain ⟨hheld, hlt⟩ := hstep.room queueId user limit hclaimed hnew hlimit
    exact ⟨hheld, (h.counts queueId user limit hlimit hheld).trans_lt hlt⟩

theorem Step.mono (h : Step queues hash db held write itemId row events)
    (hmono : ∀ key, held key → held' key) :
    Step queues hash db held' write itemId row events where
  owns := hmono _ h.owns
  written := h.written
  about := h.about
  room queueId user limit hclaimed hnew hlimit :=
    (h.room queueId user limit hclaimed hnew hlimit).imp_left (hmono _)

theorem TargetOk.mono (h : TargetOk db held call capacity target)
    (hmono : ∀ key, held key → held' key) : TargetOk db held' call capacity target := by
  cases target with
  | item mutation => exact ⟨hmono _ h.1, h.2⟩
  | next => exact h

theorem TargetOk.step_item {mutation : Mutation}
    (h : TargetOk db held call capacity (.item mutation))
    (hadmits : Admits queues hash db held capacity) :
    ∃ row, Step queues hash db held (.updateItem mutation.itemId mutation.update) mutation.itemId
      row [mutation.event call] := by
  obtain ⟨hheld, old, hold, htransition, hcapacity⟩ := h
  refine ⟨mutation.update.apply old, hheld, .update _ old _ _ hold htransition, ?_, ?_⟩
  · intro event hevent
    rw [List.mem_singleton.mp hevent]
    rfl
  · intro queueId user limit hclaimed hnew hlimit
    rw [hold] at hnew
    exact hadmits queueId user limit (hcapacity queueId user hclaimed (by simpa using hnew)) hlimit

theorem TargetOk.step_next {queueId user : Nat} {kind : EventKind} {payload : EventPayload}
    (h : TargetOk db held call capacity (.next queueId user kind payload))
    (hadmits : Admits queues hash db held capacity)
    (hnext : db.nextItem free queueId = some (itemId, row)) (held' : LockKey → Prop)
    (hmono : ∀ key, held key → held' key) (howns : held' (.item itemId)) :
    ∃ row, Step queues hash db held' (.updateItem itemId (.claim user)) itemId row
      [Mutation.event call ⟨itemId, .claim user, kind, none, some user, none, payload⟩] := by
  obtain ⟨hcapacity, hkind⟩ := h
  obtain ⟨hget, hqueue, hpending⟩ := Db.nextItem_spec hnext
  have hkinds : kind ∈ [EventKind.claim, .assign, .reassign, .override] := by
    rcases List.mem_cons.mp hkind with rfl | hkind
    · simp
    · simp [List.mem_singleton.mp hkind]
  refine ⟨(ItemUpdate.claim user).apply row, howns,
    .update _ row _ _ hget (.take user _ hpending hkinds rfl), ?_, ?_⟩
  · intro event hevent
    rw [List.mem_singleton.mp hevent]
    rfl
  · intro other otherUser limit hclaimed _ hlimit
    obtain ⟨rfl, rfl⟩ := claimedBy_claim hclaimed
    obtain ⟨hheld, hlt⟩ := hadmits row.queueId user limit (by rw [hcapacity, hqueue]) hlimit
    exact ⟨hmono _ hheld, hlt⟩

theorem worklist_outline (queues : OrderedMap Nat Queue) (hash : String → Int) :
    Outline (worklistProgram queues hash) (Sound queues) (Asserted queues hash) where
  idle _ := rfl
  turn := by
    intro db held free session action turn h hturn
    obtain ⟨hs, hlocked, hgood⟩ := h
    obtain ⟨writes, phase⟩ := session
    cases phase with
    | idle =>
      cases action with
      | call call =>
        cases hturn
        exact hgood
      | worker | next => cases hturn
    | called call =>
      obtain rfl : writes = [] := hgood
      cases hfirst : callTurn queues hash db call with
      | error failure =>
        simp [worklistProgram, callStatement, hfirst, Except.toOption] at hturn
      | ok first =>
        simp only [worklistProgram, callStatement, Session.view_nil, hfirst, Except.toOption] at hturn
        cases hturn
        cases callTurn_first hfirst with
        | insert item events hnone history pending about =>
          refine ⟨_, _, _, [], rfl, .inl rfl, .insert _ _ _ hnone history pending, about, ?_⟩
          intro queueId user limit hclaimed
          simp [Item.claimedBy, pending] at hclaimed
        | next queueId user kind payload hkind => exact ⟨rfl, rfl, hkind⟩
        | assign key queueId queue => rfl
        | row itemId => exact ⟨rfl, .inl rfl⟩
    | rowLocked call itemId =>
      obtain ⟨rfl, hheld⟩ := hgood
      simp only [worklistProgram, callStatement, Session.view_nil, rowTurn] at hturn
      split at hturn
      · cases hturn
      · rename_i row hget
        split at hturn
        · cases hturn
        · cases hturn
          exact .inl rfl
        · rename_i mutation capacity hplan
          cases hturn
          have hok := planOf_planOk (hs.history itemId row hget).assigned.1 hplan
          obtain ⟨rfl, htransition, hcapacity⟩ := hok
          exact ⟨rfl, hheld, row, hget, htransition, hcapacity⟩
    | assignLocked call queueId queue =>
      obtain rfl : writes = [] := hgood
      simp only [worklistProgram, callStatement, Session.view_nil, assignTurn] at hturn
      split at hturn
      · split at hturn
        · cases hturn
          exact .inl rfl
        · split at hturn
          · split at hturn
            · cases hturn
            · cases hturn
              exact ⟨rfl, rfl, by simp⟩
          · cases hturn
      · cases hturn
    | checking call target capacity =>
      obtain ⟨rfl, htarget⟩ := hgood
      simp only [worklistProgram, callStatement] at hturn
      split at hturn
      · cases hturn
        exact ⟨rfl, htarget, fun _ _ _ hnone => by cases hnone⟩
      · rename_i queueId user
        split at hturn
        · rename_i hlimit
          cases hturn
          refine ⟨rfl, htarget, ?_⟩
          intro queueId' user' limit' hcapacity hlimit'
          cases hcapacity
          rw [hlimit] at hlimit'
          cases hlimit'
        · rename_i limit hlimit
          cases hturn
          exact ⟨rfl, htarget.mono fun _ => .inr, hlimit, .inl rfl⟩
    | capacityLocked call target queueId user limit =>
      obtain ⟨rfl, htarget, hlimit, hheld⟩ := hgood
      simp only [worklistProgram, callStatement, Session.view_nil, assertClaimCapacity] at hturn
      split at hturn
      · cases hturn
      · rename_i hbelow
        cases hturn
        split_ifs at hbelow with hfull
        refine ⟨rfl, htarget, ?_⟩
        intro queueId' user' limit' hcapacity hlimit'
        cases hcapacity
        rw [hlimit] at hlimit'
        cases hlimit'
        exact ⟨hheld, Nat.lt_of_not_le hfull⟩
    | admitted call target capacity =>
      obtain ⟨rfl, htarget, hadmits⟩ := hgood
      cases target with
      | item mutation =>
        cases hturn
        obtain ⟨row, hstep⟩ := htarget.step_item hadmits
        exact ⟨_, _, row, [], rfl, hstep.mono fun _ => .inr⟩
      | next queueId user kind payload =>
        simp only [worklistProgram, callStatement, Session.view_nil, updateTurn] at hturn
        split at hturn
        · cases hturn
          exact .inl rfl
        · rename_i itemId row hnext
          cases hturn
          obtain ⟨row, hstep⟩ := htarget.step_next hadmits hnext
            (fun key => some (LockKey.item itemId) = some key ∨ held key) (fun _ => .inr)
            (.inl rfl)
          exact ⟨_, _, row, [], rfl, hstep⟩
    | logging events =>
      obtain ⟨write, itemId, row, done, rfl, hstep⟩ := hgood
      cases events with
      | nil =>
        cases hturn
        rw [List.append_nil] at hstep
        exact .inr ⟨write, itemId, row, done, rfl, hstep⟩
      | cons event rest =>
        simp only [worklistProgram, callStatement] at hturn
        split at hturn
        · cases hturn
        · cases hturn
          rw [List.append_cons] at hstep
          exact ⟨write, itemId, row, done ++ [event], by simp, hstep.mono fun _ => .inr⟩
    | returned =>
      cases hturn
      refine ⟨?_, rfl⟩
      rcases Asserted.committed hgood rfl with hsame | ⟨_, _, _, _, hstep, hview⟩
      · rw [hsame]
        exact hs
      · rw [hview]
        exact hs.step hstep
  stable := by
    intro db held held' free session session' action next h h' hapart hturn
    rcases Asserted.committed h'.good (phase_of_commit hturn) with hsame |
      ⟨_, _, _, events, hstep, hview⟩
    · rw [hsame]
      exact h.good
    · rw [hview]
      have hframe := hstep.apart hapart (db.events ++ events)
      have hgood := h.good
      obtain ⟨writes, phase⟩ := session
      cases phase with
      | idle | called | assignLocked | rowLocked => exact hgood
      | checking call target capacity => exact ⟨hgood.1, hframe.targetOk hgood.2⟩
      | capacityLocked call target queueId user limit =>
        exact ⟨hgood.1, hframe.targetOk hgood.2.1, hgood.2.2⟩
      | admitted call target capacity =>
        exact ⟨hgood.1, hframe.targetOk hgood.2.1, hframe.admits hgood.2.2⟩
      | logging rest =>
        obtain ⟨write, itemId, row, done, hwrites, hmine⟩ := hgood
        exact ⟨write, itemId, row, done, hwrites, hframe.step hmine⟩
      | returned =>
        rcases hgood with hnothing | ⟨write, itemId, row, events, hwrites, hmine⟩
        · exact .inl hnothing
        · exact .inr ⟨write, itemId, row, events, hwrites, hframe.step hmine⟩

def Item.isClosed (row : Item) : Bool := row.status = .completed || row.status = .canceled

theorem Step.closed (h : Step queues hash db held write itemId row events) {other : Nat}
    {current : Item} (hget : db.items.get? other = some current) (hclosed : current.isClosed = true) :
    (db.items.set itemId row).get? other = some current := by
  rw [get?_set_of_ne _ _ ?_]
  · exact hget
  · rintro rfl
    cases h.written with
    | insert _ _ _ hnone =>
      rw [hget] at hnone
      cases hnone
    | update _ old update event hold htransition =>
      rw [hget] at hold
      cases hold
      cases htransition with
      | take _ _ hstatus | move _ _ hstatus | release _ hstatus | complete _ hstatus =>
        simp [Item.isClosed, hstatus] at hclosed
      | cancel _ hopen =>
        cases hstatus : current.status <;> simp [Item.isClosed, Item.isOpen, hstatus] at hclosed hopen

def ClosedStay (db next : Db) : Prop :=
  ∀ itemId row, db.items.get? itemId = some row → row.isClosed = true →
    next.items.get? itemId = some row

theorem commit_closedStay {next : CallPhase}
    (h : At (worklistProgram queues hash) (Sound queues) (Asserted queues hash) db held session)
    (hturn : (worklistProgram queues hash).turn (session.view (worklistProgram queues hash) db)
      free session.phase action = some (.commit next)) :
    ClosedStay db (session.view (worklistProgram queues hash) db) := by
  intro itemId row hget hclosed
  rcases Asserted.committed h.good (phase_of_commit hturn) with hsame | ⟨_, _, _, _, hstep, hview⟩
  · rw [hsame]
    exact hget
  · rw [hview]
    exact hstep.closed hget hclosed

theorem sound_empty : Sound queues Db.empty where
  history _ _ hget := by cases hget
  unborn _ _ := rfl
  capacity _ _ _ _ := Nat.zero_le _

/-- No user has more claimed items in a queue than its limit; an open item is pending exactly when
it has no assignee; a completed or canceled item stays as it is; and an item that was taken twice
was given back in between. -/
theorem worklist_invariants {before after : List (Label Action)}
    {s t : State Db LockKey RowWrite CallPhase}
    (hbefore : run (step (worklistProgram queues hash))
      (State.start (worklistProgram queues hash) Db.empty) before = some s)
    (hafter : run (step (worklistProgram queues hash)) s after = some t) :
    (∀ queueId user limit, limitOf queues queueId = some limit →
      s.committed.openClaimCount queueId user ≤ limit) ∧
    (∀ itemId row, s.committed.items.get? itemId = some row → row.isOpen = true →
      (row.status = .pending ↔ row.assigneeId = none)) ∧
    (∀ itemId row, s.committed.items.get? itemId = some row → row.isClosed = true →
      t.committed.items.get? itemId = some row) ∧
    (∀ itemId earlier first between second later,
      s.committed.eventsOf itemId = earlier ++ first :: (between ++ second :: later) →
      first.takes = true → second.takes = true → ∃ event ∈ between, event.releases = true) := by
  have houtline := worklist_outline queues hash
  have hholds := houtline.run (houtline.start sound_empty) hbefore
  refine ⟨hholds.inv.capacity, ?_, ?_, ?_⟩
  · intro itemId row hget hopen
    obtain ⟨hpending, hclaimed⟩ := (hholds.inv.history itemId row hget).assigned
    refine ⟨hpending, ?_⟩
    intro hnone
    by_contra hnot
    have hstatus : row.status = .claimed := by
      rw [Item.isOpen] at hopen
      simpa [hnot] using hopen
    have hsome := hclaimed hstatus
    rw [hnone] at hsome
    cases hsome
  · have hstay : ClosedStay s.committed t.committed :=
      houtline.committed_relation (fun _ _ _ hget _ => hget)
        (fun _ _ _ hab hbc itemId row hget hclosed =>
          hbc itemId row (hab itemId row hget hclosed) hclosed) commit_closedStay hholds hafter
    exact hstay
  · intro itemId earlier first between second later hcut hfirst hsecond
    cases hget : s.committed.items.get? itemId with
    | none =>
      rw [hholds.inv.unborn itemId hget] at hcut
      simp at hcut
    | some row => exact (hholds.inv.history itemId row hget).released_between hcut hfirst hsecond

/-- The events that say where an item goes, those of its deadline apart. -/
def moves (events : List ItemEvent) : List ItemEvent :=
  events.filter fun event => decide (event.kind ≠ .deadlineSet)

theorem Transition.moves_concat {old : Item} {update : ItemUpdate}
    (h : Transition old update event) : moves (events ++ [event]) = moves events ++ [event] := by
  have hkind : event.kind ≠ .deadlineSet := by
    intro heq
    cases h <;> simp_all [ItemEvent.releases]
  simp [moves, hkind]

theorem History.held_iff (h : History events item) (user : Nat) :
    item.status = .claimed ∧ item.assigneeId = some user ↔
      ∃ event ∈ (moves events).getLast?, event.toAssignee = some user := by
  cases h with
  | enqueued _ _ kinds unassigned pending =>
    refine ⟨fun hheld => ?_, fun hlast => ?_⟩
    · rw [pending] at hheld
      cases hheld.1
    · obtain ⟨event, hmem, hto⟩ := hlast
      rw [unassigned event (List.mem_of_mem_filter (List.mem_of_getLast? hmem))] at hto
      cases hto
  | step events old update event earlier last =>
    rw [last.moves_concat]
    cases last <;> simp_all [ItemUpdate.apply]

/-- The last of these events of an item says who has it, and a closed item was closed by it. -/
theorem last_event_tells {labels : List (Label Action)} {s : State Db LockKey RowWrite CallPhase}
    (hrun : run (step (worklistProgram queues hash))
      (State.start (worklistProgram queues hash) Db.empty) labels = some s)
    {itemId : Nat} {row : Item} (hget : s.committed.items.get? itemId = some row) :
    (∀ user, row.status = .claimed ∧ row.assigneeId = some user ↔
      ∃ event ∈ (moves (s.committed.eventsOf itemId)).getLast?, event.toAssignee = some user) ∧
    (row.isClosed = true → ∃ event ∈ (moves (s.committed.eventsOf itemId)).getLast?,
      event.kind ∈ [EventKind.complete, .override, .cancel]) := by
  have houtline := worklist_outline queues hash
  have hhistory := (houtline.run (houtline.start sound_empty) hrun).inv.history itemId row hget
  refine ⟨hhistory.held_iff, fun hclosed => ?_⟩
  generalize s.committed.eventsOf itemId = events at hhistory ⊢
  cases hhistory with
  | enqueued _ _ kinds unassigned pending => simp [Item.isClosed, pending] at hclosed
  | step events old update event earlier last =>
    rw [last.moves_concat]
    refine ⟨event, List.getLast?_concat .., ?_⟩
    cases last with
    | complete _ _ kind => exact List.mem_of_mem_take (i := 2) kind
    | cancel _ _ kind => simp [kind]
    | take | move | release => cases hclosed

/-- One queue, in which a user may have one claimed item. -/
def reviewQueues : OrderedMap Nat Queue :=
  OrderedMap.empty.set 1 ⟨"review", "pull", "worklist:item:work", "worklist:queue:supervise", some 1,
    none, none⟩

/-- No advisory lock is shared by chance here. -/
def lengthHash (text : String) : Int := text.length

/-- A call by a user who may do everything, with the keys of what it inserts. -/
def callOf (actor key : Nat) (operation : Operation) : Call where
  operation := operation
  actor := some actor
  holdsPermission := fun _ _ => true
  unavailable := fun _ _ => false
  itemId := key
  eventId := fun second => if second then key + 1 else key
  now := key
  eventNow := fun _ => key

/-- A call that goes on to its end. -/
def goesOn (session turns : Nat) : List (Label Action) :=
  List.replicate turns (.act session .next)

/-- Two users want one item: the second waits for the row, and raises. The first completes it. -/
def reviewRun : List (Label Action) :=
  .act 0 (.call (callOf 7 10 (.enqueue "review" (some "order") (some "o1") none none))) ::
    goesOn 0 4 ++
  .act 1 (.call (callOf 7 20 (.claim 10 none))) :: .act 2 (.call (callOf 8 30 (.claim 10 none))) ::
    goesOn 1 8 ++ goesOn 2 1 ++ .rollback 2 ::
  .act 1 (.call (callOf 7 40 (.complete 10 none none false))) :: goesOn 1 7

/-- After this run the item is completed, and the limit holds. -/
theorem worklist_invariants_review :
    ∃ s, run (step (worklistProgram reviewQueues lengthHash))
        (State.start (worklistProgram reviewQueues lengthHash) Db.empty) reviewRun = some s ∧
      s.committed.items.get? 10 = some ⟨1, 100, none, 10, .completed, some 7⟩ ∧
      ∀ queueId user limit, limitOf reviewQueues queueId = some limit →
        s.committed.openClaimCount queueId user ≤ limit := by
  have hprobe : (run (step (worklistProgram reviewQueues lengthHash))
      (State.start (worklistProgram reviewQueues lengthHash) Db.empty) reviewRun).map
        (fun s => s.committed.items.get? 10) =
      some (some ⟨1, 100, none, 10, .completed, some 7⟩) := by
    decide
  obtain ⟨s, hs, hrow⟩ := Option.map_eq_some_iff.mp hprobe
  exact ⟨s, hs, hrow, (worklist_invariants hs (run_nil _ s)).1⟩

/-- The item was completed by its last event. -/
theorem last_event_tells_review :
    ∃ s, run (step (worklistProgram reviewQueues lengthHash))
        (State.start (worklistProgram reviewQueues lengthHash) Db.empty) reviewRun = some s ∧
      ∃ event ∈ (moves (s.committed.eventsOf 10)).getLast?,
        event.kind ∈ [EventKind.complete, .override, .cancel] := by
  have hprobe : (run (step (worklistProgram reviewQueues lengthHash))
      (State.start (worklistProgram reviewQueues lengthHash) Db.empty) reviewRun).map
        (fun s => s.committed.items.get? 10) =
      some (some ⟨1, 100, none, 10, .completed, some 7⟩) := by
    decide
  obtain ⟨s, hs, hrow⟩ := Option.map_eq_some_iff.mp hprobe
  exact ⟨s, hs, (last_event_tells hs hrow).2 rfl⟩

end Stynx.Worklist
