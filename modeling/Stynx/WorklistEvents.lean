import Mathlib.Data.Prod.Lex
import Stynx.WorklistRuns

/-!
# The events that the item service publishes

An operation on one item is one transaction. It counts the events of the item, calls the function
of the schema, reads the events in the order of `created_at` and `id`, leaves out as many as it
counted, and publishes the rest after its commit. Only the function locks the row of the item:
what is committed between the count and the lock is not counted, but read back.
-/

namespace Stynx.Worklist

open ReadCommitted
open TransitionRuns
open scoped List

def eventOrder (first second : ItemEvent) : Prop :=
  first.createdAt < second.createdAt ∨ first.createdAt = second.createdAt ∧ first.id ≤ second.id

instance (first second : ItemEvent) : Decidable (eventOrder first second) :=
  inferInstanceAs (Decidable (_ ∨ _ ∧ _))

/-- An event sorts strictly before another one. -/
def ItemEvent.before (first second : ItemEvent) : Prop :=
  first.createdAt < second.createdAt ∨ first.createdAt = second.createdAt ∧ first.id < second.id

instance (first second : ItemEvent) : Decidable (first.before second) :=
  inferInstanceAs (Decidable (_ ∨ _ ∧ _))

/-- `order by created_at, id offset $2`. -/
def readBack (events : List ItemEvent) (total : Nat) : List ItemEvent :=
  (events.insertionSort eventOrder).drop total

section

theorem eventOrder_iff {first second : ItemEvent} : eventOrder first second ↔
    toLex (first.createdAt, first.id) ≤ toLex (second.createdAt, second.id) := by
  rw [Prod.Lex.toLex_le_toLex, eventOrder]

instance : Std.Total eventOrder where
  total _ _ := (le_total _ _).imp eventOrder_iff.mpr eventOrder_iff.mpr

instance : IsTrans ItemEvent eventOrder where
  trans _ _ _ h h' := eventOrder_iff.mpr ((eventOrder_iff.mp h).trans (eventOrder_iff.mp h'))

variable {first second last : ItemEvent} {total : Nat}

theorem eventOrder_antisymm (h : eventOrder first second) (h' : eventOrder second first) :
    first.id = second.id := by
  rcases h with hlt | ⟨heq, hle⟩ <;> rcases h' with hlt' | ⟨heq', hle'⟩ <;> omega

theorem ItemEvent.before.eventOrder (h : first.before second) :
    eventOrder first second := h.imp_right fun h => ⟨h.1, h.2.le⟩

variable {events : List ItemEvent}

theorem insertionSort_append (hunique : ((events ++ [last]).map ItemEvent.id).Nodup)
    (hlast : ∀ event ∈ events, event.before last) :
    (events ++ [last]).insertionSort eventOrder = events.insertionSort eventOrder ++ [last] := by
  have hperm : (events ++ [last]).insertionSort eventOrder ~
      events.insertionSort eventOrder ++ [last] :=
    (List.perm_insertionSort _ _).trans ((List.perm_insertionSort _ _).symm.append_right _)
  refine hperm.eq_of_pairwise ?_ (List.pairwise_insertionSort _ _) ?_
  · intro first second hfirst hsecond h h'
    rw [List.mem_insertionSort] at hfirst
    have hsecond' : second ∈ events ++ [last] := by
      rw [List.mem_append, List.mem_insertionSort] at hsecond
      exact List.mem_append.mpr hsecond
    exact List.inj_on_of_nodup_map hunique hfirst hsecond' (eventOrder_antisymm h h')
  · rw [List.pairwise_append]
    refine ⟨List.pairwise_insertionSort _ _, List.pairwise_singleton _ _, ?_⟩
    intro event hevent other hother
    rw [List.mem_insertionSort] at hevent
    rw [List.mem_singleton.mp hother]
    exact (hlast event hevent).eventOrder

theorem before_of_readBack (hunique : ((events ++ [last]).map ItemEvent.id).Nodup)
    (h : readBack (events ++ [last]) total = [last]) {event : ItemEvent} (hevent : event ∈ events) :
    event.before last := by
  have hsorted := List.pairwise_insertionSort eventOrder (events ++ [last])
  have hsplit := List.take_append_drop total ((events ++ [last]).insertionSort eventOrder)
  rw [readBack] at h
  rw [h] at hsplit
  have hperm : ((events ++ [last]).insertionSort eventOrder).take total ~ events := by
    refine (List.perm_append_right_iff [last]).mp ?_
    rw [hsplit]
    exact List.perm_insertionSort _ _
  rw [← hsplit, List.pairwise_append] at hsorted
  have horder := hsorted.2.2 event (hperm.mem_iff.mpr hevent) last (List.mem_singleton_self last)
  refine horder.imp_right fun hsame => ⟨hsame.1, lt_of_le_of_ne hsame.2 ?_⟩
  rw [List.map_append, List.nodup_append] at hunique
  exact hunique.2.2 event.id (List.mem_map_of_mem hevent) last.id (by simp)

theorem readBack_eq_iff {appended : List ItemEvent}
    (hunique : ((events ++ appended).map ItemEvent.id).Nodup) (htotal : total ≤ events.length)
    (hone : appended.length ≤ 1) :
    readBack (events ++ appended) total = appended ↔
      events.length = total ∧ ∀ last ∈ appended, ∀ event ∈ events, event.before last := by
  have hcases : appended = [] ∨ ∃ last, appended = [last] := by
    rw [← List.length_eq_zero_iff, ← List.length_eq_one_iff]
    omega
  rcases hcases with rfl | ⟨last, rfl⟩
  · rw [List.append_nil, readBack, List.drop_eq_nil_iff, List.length_insertionSort]
    constructor
    · intro hle
      exact ⟨le_antisymm hle htotal, fun _ hlast => by cases hlast⟩
    · rintro ⟨heq, -⟩
      exact heq.le
  · constructor
    · intro h
      constructor
      · have hlength := congrArg List.length h
        rw [readBack, List.length_drop, List.length_insertionSort, List.length_append,
          List.length_singleton] at hlength
        omega
      · intro other hother event hevent
        rw [List.mem_singleton.mp hother]
        exact before_of_readBack hunique h hevent
    · rintro ⟨rfl, hlast⟩
      have hbefore := hlast last (List.mem_singleton_self last)
      rw [readBack, insertionSort_append hunique hbefore]
      exact List.drop_left' (List.length_insertionSort eventOrder events)

end

/-- What a committed call did: the events of its transaction, and those it publishes. -/
structure CallRecord where
  appended : List ItemEvent
  /-- Events that it hands to the sink after its commit. -/
  published : List ItemEvent
  deriving DecidableEq

/-- The tables, and the history of the committed calls. -/
structure Service where
  tables : Db
  history : List CallRecord

/-- The rows that a call writes, and its entry in the history. -/
inductive ServiceWrite where
  | row (row : RowWrite)
  | record (record : CallRecord)

def ServiceWrite.apply (service : Service) : ServiceWrite → Service
  | .row write => { service with tables := write.apply service.tables }
  | .record entry => { service with history := service.history ++ [entry] }

def ServiceWrite.guard : ServiceWrite → Option LockKey
  | .row write => write.guard
  | .record _ => none

def RowWrite.events : RowWrite → List ItemEvent
  | .insertEvent event => [event]
  | _ => []

/-- The events among the rows of a call. -/
def ServiceWrite.events : ServiceWrite → List ItemEvent
  | .row write => write.events
  | .record _ => []

/-- The entries in the history among the writes of a call. -/
def ServiceWrite.records : ServiceWrite → List CallRecord
  | .row _ => []
  | .record entry => [entry]

/-- Where an operation of the service is, with the events that its transaction has appended. -/
inductive ServicePhase where
  /-- Outside operations. -/
  | idle
  /-- Before the count. -/
  | begun (call : Call) (itemId : Nat)
  /-- In the function of the schema. -/
  | mutating (itemId total : Nat) (appended : List ItemEvent) (phase : CallPhase)
  /-- Before the row is read. -/
  | mutated (itemId total : Nat) (appended : List ItemEvent)
  | itemRead (itemId total : Nat) (appended : List ItemEvent)
  /-- Before the commit. -/
  | eventsRead (itemId total : Nat) (appended : List ItemEvent)

section

variable (queues : OrderedMap Nat Queue) (hash : String → Int)

/-- A statement of the function of the schema, within an operation. -/
def mutationTurn (itemId total : Nat) (appended : List ItemEvent) :
    Turn LockKey RowWrite CallPhase → Turn LockKey ServiceWrite ServicePhase
  | .lock key next => .lock key (.mutating itemId total appended next)
  | .write row next => .write (.row row) (.mutating itemId total (appended ++ row.events) next)
  | .go next => .go (.mutating itemId total appended next)
  | .commit _ => .go (.mutated itemId total appended)

/-- `itemMutation`, one statement after the other. -/
def itemMutation : Program Service LockKey ServiceWrite ServicePhase (Option Call) where
  apply := ServiceWrite.apply
  guard := ServiceWrite.guard
  idle := .idle
  turn service free phase action :=
    match phase with
    | .idle =>
      match action with
      | none => none
      | some call => call.operation.itemId?.map fun itemId => .go (.begun call itemId)
    | .begun call itemId =>
      some (.go (.mutating itemId (service.tables.eventsOf itemId).length [] (.called call)))
    | .mutating itemId total appended phase =>
      (callStatement queues hash service.tables free phase .next).map
        (mutationTurn itemId total appended)
    | .mutated itemId total appended =>
      -- `getInTransaction` throws when there is no row
      if service.tables.items.has itemId then some (.go (.itemRead itemId total appended)) else none
    | .itemRead itemId total appended =>
      some (.write (.record ⟨appended, readBack (service.tables.eventsOf itemId) total⟩)
        (.eventsRead itemId total appended))
    | .eventsRead _ _ _ => some (.commit .idle)

end

/-- When a call commits, no event of its item was committed since it counted, and its own sorts
last. -/
def Undisturbed (s : State Service LockKey ServiceWrite ServicePhase) : Label (Option Call) → Prop
  | .act i _ =>
    match (s.sessions i).phase with
    | .eventsRead itemId total appended =>
      (s.committed.tables.eventsOf itemId).length = total ∧
        ∀ last ∈ appended, ∀ event ∈ s.committed.tables.eventsOf itemId, event.before last
    | _ => True
  | .rollback _ => True

variable {queues : OrderedMap Nat Queue} {hash : String → Int}

/-- The function of the schema writes one event, about the item whose row it has locked. -/
def InMutation (held : LockKey → Prop) (itemId : Nat) (appended : List ItemEvent) : CallPhase → Prop
  | .called call => appended = [] ∧ call.operation.itemId? = some itemId
  | .rowLocked _ locked => appended = [] ∧ held (.item itemId) ∧ locked = itemId
  | .checking _ (.item mutation) _ | .capacityLocked _ (.item mutation) _ _ _
  | .admitted _ (.item mutation) _ =>
    appended = [] ∧ held (.item itemId) ∧ mutation.itemId = itemId
  | .logging rest =>
    held (.item itemId) ∧ ∃ event, appended ++ rest = [event] ∧ event.itemId = itemId
  | .returned =>
    held (.item itemId) ∧ appended.length ≤ 1 ∧ ∀ event ∈ appended, event.itemId = itemId
  | _ => False

/-- The writes of a transaction are its events and rows of items. -/
structure Appends (db : Service) (held : LockKey → Prop) (writes : List ServiceWrite)
    (itemId total : Nat) (appended : List ItemEvent) : Prop where
  events : writes.flatMap ServiceWrite.events = appended
  /-- Their keys are locked and new. -/
  fresh : ∀ event ∈ appended, held (.event event.id) ∧ event.id ∉ db.tables.events.map ItemEvent.id
  total : total ≤ (db.tables.eventsOf itemId).length

/-- The function of the schema has ended. -/
structure Mutated (db : Service) (held : LockKey → Prop) (writes : List ServiceWrite)
    (itemId total : Nat) (appended : List ItemEvent) : Prop extends
    Appends db held writes itemId total appended where
  /-- The row is locked. -/
  owns : held (.item itemId)
  /-- There is at most one event. -/
  one : appended.length ≤ 1
  about : ∀ event ∈ appended, event.itemId = itemId

/-- What an operation may assert at its statements. -/
def ServiceAsserted (db : Service) (held : LockKey → Prop)
    (session : Session ServiceWrite ServicePhase) : Prop :=
  match session.phase with
  | .idle => session.writes = []
  | .begun call itemId => session.writes = [] ∧ call.operation.itemId? = some itemId
  | .mutating itemId total appended phase =>
    session.writes.flatMap ServiceWrite.records = [] ∧
      Appends db held session.writes itemId total appended ∧ InMutation held itemId appended phase
  | .mutated itemId total appended | .itemRead itemId total appended =>
    session.writes.flatMap ServiceWrite.records = [] ∧
      Mutated db held session.writes itemId total appended
  | .eventsRead itemId total appended =>
    session.writes.flatMap ServiceWrite.records =
        [⟨appended, readBack (db.tables.eventsOf itemId ++ appended) total⟩] ∧
      Mutated db held session.writes itemId total appended

/-- What holds of the committed rows. -/
structure Appended (start : Db) (db : Service) : Prop where
  unique : (db.tables.events.map ItemEvent.id).Nodup
  /-- The events are those of the start and those of the committed calls. -/
  events : db.tables.events = start.events ++ db.history.flatMap CallRecord.appended

theorem view_events (db : Service) (session : Session ServiceWrite ServicePhase) :
    (session.view (itemMutation queues hash) db).tables.events =
      db.tables.events ++ session.writes.flatMap ServiceWrite.events := by
  unfold Session.view
  generalize session.writes = writes
  induction writes generalizing db with
  | nil => simp
  | cons write rest ih =>
    rw [List.foldl_cons, ih, List.flatMap_cons, ← List.append_assoc]
    congr 1
    cases write with
    | record entry => simp [itemMutation, ServiceWrite.apply, ServiceWrite.events]
    | row write =>
      cases write with
      | insertItem itemId item =>
        simp [itemMutation, ServiceWrite.apply, ServiceWrite.events, RowWrite.events,
          RowWrite.apply]
      | insertEvent event =>
        simp [itemMutation, ServiceWrite.apply, ServiceWrite.events, RowWrite.events,
          RowWrite.apply]
      | updateItem itemId update =>
        simp only [itemMutation, ServiceWrite.apply, ServiceWrite.events, RowWrite.events,
          RowWrite.apply, List.append_nil]
        split <;> rfl

theorem view_history (db : Service) (session : Session ServiceWrite ServicePhase) :
    (session.view (itemMutation queues hash) db).history =
      db.history ++ session.writes.flatMap ServiceWrite.records := by
  unfold Session.view
  generalize session.writes = writes
  induction writes generalizing db with
  | nil => simp
  | cons write rest ih =>
    rw [List.foldl_cons, ih, List.flatMap_cons, ← List.append_assoc]
    congr 1
    cases write <;> simp [itemMutation, ServiceWrite.apply, ServiceWrite.records]

variable {db next : Service} {itemId total other : Nat} {appended : List ItemEvent}
  {held held' : LockKey → Prop} {writes : List ServiceWrite}

variable {session : Session ServiceWrite ServicePhase} {tables : Db} {call : Call}
  {free : LockKey → Bool}

theorem view_eventsOf (h : session.writes.flatMap ServiceWrite.events = appended)
    (habout : ∀ event ∈ appended, event.itemId = itemId) :
    (session.view (itemMutation queues hash) db).tables.eventsOf itemId =
      db.tables.eventsOf itemId ++ appended := by
  have hall : appended.filter (fun event => decide (event.itemId = itemId)) = appended := by
    rw [List.filter_eq_self]
    intro event hevent
    simp [habout event hevent]
  rw [Db.eventsOf, view_events, h, List.filter_append, hall, Db.eventsOf]

theorem Appends.mono (h : Appends db held writes itemId total appended)
    (hmono : ∀ key, held key → held' key) :
    Appends db held' writes itemId total appended :=
  ⟨h.events, fun event hevent => (h.fresh event hevent).imp_left (hmono _), h.total⟩

theorem callTurn_of_itemId {turn : Turn LockKey RowWrite CallPhase}
    (hitem : call.operation.itemId? = some itemId) (h : callTurn queues hash tables call = .ok turn) :
    turn = .lock (.item itemId) (.rowLocked call itemId) := by
  rw [callTurn] at h
  cases hoperation : call.operation with
  | enqueue | claimNext | assignNext | itemAssignNext =>
    rw [hoperation] at hitem
    cases hitem
  | claim | release | complete | cancel | reassign =>
    simp only [hoperation] at h
    rw [hoperation] at hitem
    cases hitem
    split at h
    · cases h
    · cases h
      rfl

theorem planOf_itemId {row : Item} {mutation : Mutation} {capacity : Option (Nat × Nat)}
    (h : planOf queues call itemId row = .ok (.write mutation capacity)) :
    mutation.itemId = itemId := by
  rw [planOf] at h
  split at h
  · rw [itemClaim] at h
    split at h
    · cases h
    · split at h
      · cases h
      · cases h
        rfl
  · rw [itemRelease] at h
    split at h
    · cases h
    · split at h
      · cases h
      · cases h
        rfl
  · rw [itemComplete] at h
    split at h
    · cases h
    · split at h
      · cases h
      · split at h
        · cases h
        · cases h
          rfl
  · rw [itemCancel] at h
    split at h
    · cases h
    · split at h
      · cases h
      · cases h
        rfl
  · rw [itemReassign] at h
    split at h
    · cases h
    · split at h
      · cases h
      · split at h
        · cases h
        · cases h
          rfl
  · cases h

/-- What a statement of the function of the schema has to establish. -/
def MutationEstablishes (tables : Db) (held : LockKey → Prop) (itemId : Nat)
    (appended : List ItemEvent) : Turn LockKey RowWrite CallPhase → Prop
  | .lock key next => InMutation (fun k => k = key ∨ held k) itemId appended next
  | .write row next =>
    InMutation (fun k => row.guard = some k ∨ held k) itemId (appended ++ row.events) next ∧
      ∀ event ∈ row.events, event.id ∉ tables.events.map ItemEvent.id
  | .go next => InMutation held itemId appended next
  | .commit _ =>
    held (.item itemId) ∧ appended.length ≤ 1 ∧ ∀ event ∈ appended, event.itemId = itemId

theorem InMutation.turn {phase : CallPhase} {turn : Turn LockKey RowWrite CallPhase}
    (h : InMutation held itemId appended phase)
    (hturn : callStatement queues hash tables free phase .next = some turn) :
    MutationEstablishes tables held itemId appended turn := by
  cases phase with
  | idle => cases h
  | assignLocked => cases h
  | called call =>
    obtain ⟨rfl, hitem⟩ := h
    rw [callStatement] at hturn
    cases hfirst : callTurn queues hash tables call with
    | error failure =>
      rw [hfirst] at hturn
      cases hturn
    | ok first =>
      rw [hfirst, callTurn_of_itemId hitem hfirst] at hturn
      cases hturn
      exact ⟨rfl, .inl rfl, rfl⟩
  | rowLocked call locked =>
    obtain ⟨rfl, hheld, rfl⟩ := h
    simp only [callStatement, rowTurn] at hturn
    split at hturn
    · cases hturn
    · split at hturn
      · cases hturn
      · cases hturn
        exact ⟨hheld, Nat.zero_le 1, fun _ hnone => by cases hnone⟩
      · rename_i mutation capacity hplan
        cases hturn
        exact ⟨rfl, hheld, planOf_itemId hplan⟩
  | checking call target capacity =>
    cases target with
    | next => cases h
    | item mutation =>
      obtain ⟨rfl, hheld, hitem⟩ := h
      simp only [callStatement] at hturn
      split at hturn
      · cases hturn
        exact ⟨rfl, hheld, hitem⟩
      · split at hturn
        · cases hturn
          exact ⟨rfl, hheld, hitem⟩
        · cases hturn
          exact ⟨rfl, .inr hheld, hitem⟩
  | capacityLocked call target queueId user limit =>
    cases target with
    | next => cases h
    | item mutation =>
      simp only [callStatement] at hturn
      split at hturn
      · cases hturn
      · cases hturn
        exact h
  | admitted call target capacity =>
    cases target with
    | next => cases h
    | item mutation =>
      obtain ⟨rfl, hheld, rfl⟩ := h
      cases hturn
      exact ⟨⟨.inr hheld, mutation.event call, rfl, rfl⟩, fun _ hnone => by cases hnone⟩
  | logging rest =>
    obtain ⟨hheld, event, hone, habout⟩ := h
    cases rest with
    | nil =>
      cases hturn
      rw [List.append_nil] at hone
      subst hone
      refine ⟨hheld, le_refl 1, ?_⟩
      intro other hother
      rw [List.mem_singleton.mp hother]
      exact habout
    | cons next rest =>
      simp only [callStatement] at hturn
      split at hturn
      · cases hturn
      · rename_i hnew
        cases hturn
        refine ⟨⟨.inr hheld, event, ?_, habout⟩, ?_⟩
        · rw [← hone, List.append_cons]
          rfl
        · intro other hother hmem
          rw [RowWrite.events, List.mem_singleton] at hother
          subst hother
          obtain ⟨found, hfound, hid⟩ := List.mem_map.mp hmem
          exact hnew (List.any_eq_true.mpr ⟨found, hfound, by simp [hid]⟩)
  | returned =>
    cases hturn
    exact h

theorem eventsRead_of_commit {service : Service} {phase next : ServicePhase} {action : Option Call}
    (h : (itemMutation queues hash).turn service free phase action = some (.commit next)) :
    ∃ itemId total appended, phase = .eventsRead itemId total appended := by
  cases phase with
  | idle =>
    cases action with
    | none => cases h
    | some call =>
      obtain ⟨itemId, -, hturn⟩ := Option.map_eq_some_iff.mp h
      cases hturn
  | begun => cases h
  | mutating =>
    obtain ⟨turn, -, hturn⟩ := Option.map_eq_some_iff.mp h
    cases turn <;> cases hturn
  | mutated itemId total appended =>
    simp only [itemMutation] at h
    split at h <;> cases h
  | itemRead => cases h
  | eventsRead itemId total appended => exact ⟨itemId, total, appended, rfl⟩

theorem Appends.keep (write : ServiceWrite) (h : Appends db held writes itemId total appended)
    (hnone : write.events = []) (hmono : ∀ key, held key → held' key) :
    Appends db held' (writes ++ [write]) itemId total appended := by
  refine ⟨?_, (h.mono hmono).fresh, h.total⟩
  rw [List.flatMap_append, h.events, List.flatMap_singleton, hnone, List.append_nil]

theorem Appends.row (row : RowWrite) (h : Appends db held writes itemId total appended)
    (hnew : ∀ event ∈ row.events, event.id ∉ db.tables.events.map ItemEvent.id) :
    Appends db (fun key => row.guard = some key ∨ held key) (writes ++ [.row row]) itemId total
      (appended ++ row.events) := by
  refine ⟨?_, ?_, h.total⟩
  · rw [List.flatMap_append, h.events, List.flatMap_singleton]
    rfl
  · intro event hevent
    rcases List.mem_append.mp hevent with hold | hrow
    · exact (h.fresh event hold).imp_left .inr
    · refine ⟨.inl ?_, hnew event hrow⟩
      cases row with
      | insertItem | updateItem => cases hrow
      | insertEvent other =>
        rw [List.mem_singleton.mp hrow]
        rfl

theorem nodup_of_length_le_one {keys : List Nat} (h : keys.length ≤ 1) : keys.Nodup := by
  cases keys with
  | nil => exact List.nodup_nil
  | cons key rest =>
    have hrest : rest = [] := List.length_eq_zero_iff.mp (by simpa using h)
    rw [hrest]
    exact List.nodup_singleton key

theorem Mutated.nodup (h : Mutated db held writes itemId total appended) {events : List ItemEvent}
    (hunique : (events.map ItemEvent.id).Nodup) (hsub : events ⊆ db.tables.events) :
    ((events ++ appended).map ItemEvent.id).Nodup := by
  rw [List.map_append, List.nodup_append]
  refine ⟨hunique, ?_, ?_⟩
  · exact nodup_of_length_le_one (by rw [List.length_map]; exact h.one)
  · intro first hfirst second hsecond hsame
    obtain ⟨event, hevent, rfl⟩ := List.mem_map.mp hsecond
    subst hsame
    exact (h.fresh event hevent).2 (List.map_subset _ hsub hfirst)

/-- What the commit of a call does to the tables. -/
structure Committed (db next : Service) (held : LockKey → Prop) (itemId : Nat)
    (appended : List ItemEvent) : Prop where
  events : next.tables.events = db.tables.events ++ appended
  keys : ∀ event ∈ appended, held (.event event.id)
  /-- The row was locked. -/
  owns : held (.item itemId)
  about : ∀ event ∈ appended, event.itemId = itemId

theorem Mutated.committed (h : Mutated db held session.writes itemId total appended) :
    Committed db (session.view (itemMutation queues hash) db) held itemId appended where
  events := by rw [view_events, h.events]
  keys event hevent := (h.fresh event hevent).1
  owns := h.owns
  about := h.about

theorem Committed.eventsOf (h : Committed db next held itemId appended) (hother : other ≠ itemId) :
    next.tables.eventsOf other = db.tables.eventsOf other := by
  have hnone : appended.filter (fun event => decide (event.itemId = other)) = [] := by
    rw [List.filter_eq_nil_iff]
    intro event hevent
    simp [h.about event hevent, hother.symm]
  rw [Db.eventsOf, h.events, List.filter_append, hnone, List.append_nil, Db.eventsOf]

theorem Appends.stable {committed : List ItemEvent}
    (h : Appends db held writes itemId total appended)
    (hcommit : Committed db next held' other committed) (hapart : ∀ key, held key → ¬held' key) :
    Appends next held writes itemId total appended := by
  refine ⟨h.events, ?_, ?_⟩
  · intro event hevent
    obtain ⟨hheld, hnew⟩ := h.fresh event hevent
    refine ⟨hheld, ?_⟩
    rw [hcommit.events, List.map_append, List.mem_append]
    intro hmem
    rcases hmem with hold | hadded
    · exact hnew hold
    · obtain ⟨added, hadded, hid⟩ := List.mem_map.mp hadded
      refine hapart _ hheld ?_
      rw [← hid]
      exact hcommit.keys added hadded
  · refine h.total.trans ?_
    rw [Db.eventsOf, Db.eventsOf, hcommit.events, List.filter_append, List.length_append]
    exact Nat.le_add_right _ _

theorem Mutated.stable {committed : List ItemEvent}
    (h : Mutated db held writes itemId total appended)
    (hcommit : Committed db next held' other committed) (hapart : ∀ key, held key → ¬held' key) :
    Mutated next held writes itemId total appended ∧
      next.tables.eventsOf itemId = db.tables.eventsOf itemId := by
  refine ⟨⟨h.toAppends.stable hcommit hapart, h.owns, h.one, h.about⟩, ?_⟩
  refine hcommit.eventsOf ?_
  intro hsame
  refine hapart _ h.owns ?_
  rw [hsame]
  exact hcommit.owns

theorem itemMutation_outline (queues : OrderedMap Nat Queue) (hash : String → Int) (start : Db) :
    Outline (itemMutation queues hash) (Appended start) ServiceAsserted where
  idle _ := rfl
  turn := by
    intro db held free session action turn h hturn
    obtain ⟨hinv, hlocked, hgood⟩ := h
    obtain ⟨writes, phase⟩ := session
    cases phase with
    | idle =>
      cases action with
      | none => cases hturn
      | some call =>
        obtain ⟨itemId, hitem, hbegun⟩ := Option.map_eq_some_iff.mp hturn
        cases hbegun
        exact ⟨hgood, hitem⟩
    | begun call itemId =>
      obtain ⟨rfl, hitem⟩ := hgood
      cases hturn
      exact ⟨rfl, ⟨rfl, fun _ hevent => absurd hevent List.not_mem_nil, le_refl _⟩, rfl, hitem⟩
    | mutating itemId total appended phase =>
      obtain ⟨hrecords, happends, hmutation⟩ := hgood
      obtain ⟨statement, hstatement, hservice⟩ := Option.map_eq_some_iff.mp hturn
      have hnext := hmutation.turn hstatement
      cases statement with
      | lock key next =>
        cases hservice
        exact ⟨hrecords, happends.mono fun _ => .inr, hnext⟩
      | write row next =>
        cases hservice
        refine ⟨?_, happends.row row ?_, hnext.1⟩
        · rw [List.flatMap_append, hrecords]
          rfl
        · intro event hevent hmem
          refine hnext.2 event hevent ?_
          rw [view_events, List.map_append]
          exact List.mem_append_left _ hmem
      | go next =>
        cases hservice
        exact ⟨hrecords, happends, hnext⟩
      | commit next =>
        cases hservice
        exact ⟨hrecords, happends, hnext.1, hnext.2.1, hnext.2.2⟩
    | mutated itemId total appended =>
      simp only [itemMutation] at hturn
      split at hturn
      · cases hturn
        exact hgood
      · cases hturn
    | itemRead itemId total appended =>
      obtain ⟨hrecords, hmutated⟩ := hgood
      cases hturn
      refine ⟨?_, ⟨hmutated.toAppends.keep _ rfl fun _ => .inr, .inr hmutated.owns,
        hmutated.one, hmutated.about⟩⟩
      dsimp only
      rw [List.flatMap_append, hrecords, view_eventsOf hmutated.events hmutated.about]
      rfl
    | eventsRead itemId total appended =>
      obtain ⟨hrecords, hmutated⟩ := hgood
      cases hturn
      refine ⟨⟨?_, ?_⟩, rfl⟩
      · rw [view_events, hmutated.events]
        exact hmutated.nodup hinv.unique (List.Subset.refl _)
      · rw [view_events, view_history, hmutated.events, hrecords, hinv.events,
          List.flatMap_append, List.flatMap_singleton, List.append_assoc]
  stable := by
    intro db held held' free session session' action next h h' hapart hturn
    obtain ⟨writes, phase⟩ := session
    obtain ⟨other, total', committed, hphase⟩ := eventsRead_of_commit hturn
    have hcommitting := h'.good
    rw [ServiceAsserted, hphase] at hcommitting
    have hcommit : Committed db (session'.view (itemMutation queues hash) db) held' other
        committed := hcommitting.2.committed
    have hgood := h.good
    cases phase with
    | idle | begun => exact hgood
    | mutating itemId total appended phase =>
      exact ⟨hgood.1, hgood.2.1.stable hcommit hapart, hgood.2.2⟩
    | mutated itemId total appended | itemRead itemId total appended =>
      exact ⟨hgood.1, (hgood.2.stable hcommit hapart).1⟩
    | eventsRead itemId total appended =>
      obtain ⟨hmutated, hsame⟩ := hgood.2.stable hcommit hapart
      refine ⟨?_, hmutated⟩
      rw [hgood.1, hsame]

/-- Every call so far has published what its transaction appended. -/
def PublishesOwn (s : State Service LockKey ServiceWrite ServicePhase) : Prop :=
  ∀ record ∈ s.committed.history, record.published = record.appended

theorem publishesOwn_step {start : Db} {s t : State Service LockKey ServiceWrite ServicePhase}
    {label : Label (Option Call)}
    (hs : Holds (itemMutation queues hash) (Appended start) ServiceAsserted s)
    (hstep : step (itemMutation queues hash) s label = some t) :
    PublishesOwn t ↔ PublishesOwn s ∧ Undisturbed s label := by
  rcases step_committed hstep with ⟨hsame, hother⟩ | ⟨i, ⟨action, next, rfl, hturn⟩, hnew⟩
  · have hundisturbed : Undisturbed s label := by
      cases label with
      | rollback i => trivial
      | act i action =>
        rw [Undisturbed]
        split
        · rename_i itemId total appended hphase
          exact absurd ⟨action, .idle, rfl, by rw [hphase]; rfl⟩ (hother i)
        · trivial
    rw [PublishesOwn, hsame]
    exact (and_iff_left hundisturbed).symm
  · obtain ⟨itemId, total, appended, hphase⟩ := eventsRead_of_commit hturn
    have hgood := hs.good i
    rw [ServiceAsserted, hphase] at hgood
    obtain ⟨hrecords, hmutated⟩ := hgood
    have hunique : ((s.committed.tables.eventsOf itemId ++ appended).map ItemEvent.id).Nodup :=
      hmutated.nodup (hs.inv.unique.sublist (List.filter_sublist.map _)) (List.filter_subset_self _)
    have hreadBack := readBack_eq_iff hunique hmutated.total hmutated.one
    rw [PublishesOwn, hnew, view_history, hrecords, List.forall_mem_append,
      List.forall_mem_singleton, hreadBack, Undisturbed, hphase]
    rfl

/-- Each committed call has published exactly what its transaction appended if and only if every
commit was undisturbed, and then no event is published twice. -/
theorem publishes_own_events_iff {start : Db} (hunique : (start.events.map ItemEvent.id).Nodup)
    {labels : List (Label (Option Call))} {s : State Service LockKey ServiceWrite ServicePhase}
    (hrun : run (step (itemMutation queues hash))
      (State.start (itemMutation queues hash) ⟨start, []⟩) labels = some s) :
    ((∀ record ∈ s.committed.history, record.published = record.appended) ↔
      RunMeets (step (itemMutation queues hash)) Undisturbed
        (State.start (itemMutation queues hash) ⟨start, []⟩) labels) ∧
    (RunMeets (step (itemMutation queues hash)) Undisturbed
        (State.start (itemMutation queues hash) ⟨start, []⟩) labels →
      ((s.committed.history.flatMap CallRecord.published).map ItemEvent.id).Nodup) := by
  have houtline := itemMutation_outline queues hash start
  have happended : Appended start (⟨start, []⟩ : Service) := ⟨hunique, by simp⟩
  have hstart := houtline.start happended
  have hiff : PublishesOwn s ↔ _ :=
    run_iff_meets (fun _ _ _ hs hstep => houtline.step hs hstep)
      (fun _ _ _ hs hstep => publishesOwn_step hs hstep) hstart hrun
  have hnothing : PublishesOwn (State.start (itemMutation queues hash) ⟨start, []⟩) :=
    fun _ hrecord => absurd hrecord List.not_mem_nil
  rw [and_iff_right hnothing] at hiff
  refine ⟨hiff, ?_⟩
  intro hmeets
  have hown := hiff.mpr hmeets
  have hinv := (houtline.run hstart hrun).inv
  have hpublished : s.committed.history.flatMap CallRecord.published =
      s.committed.history.flatMap CallRecord.appended :=
    List.flatMap_congr hown
  have hkeys := hinv.unique
  rw [hinv.events, List.map_append, List.nodup_append] at hkeys
  rw [hpublished]
  exact hkeys.2.1

/-- An item that waits in the review queue, and its event. -/
def waitingItem : Db :=
  ⟨OrderedMap.empty.set 1 ⟨1, 100, none, 1, .pending, none⟩,
    [⟨1, 1, .enqueue, some 7, none, none, none, .entity "order" "o1", 1⟩]⟩

def serviceGoesOn (session turns : Nat) : List (Label (Option Call)) :=
  List.replicate turns (.act session none)

def claimCall : Label (Option Call) := .act 0 (some (callOf 7 20 (.claim 1 none)))

/-- A supervisor cancels the item. -/
def cancelCall : Label (Option Call) := .act 1 (some (callOf 9 30 (.cancel 1 (some "duplicate"))))

def claimEvent : ItemEvent := ⟨20, 1, .claim, some 7, none, some 7, none, .empty, 20⟩

def cancelEvent : ItemEvent :=
  ⟨30, 1, .cancel, some 9, some 7, none, some "duplicate", .empty, 30⟩

/-- One after the other. -/
def orderlyRun : List (Label (Option Call)) :=
  claimCall :: serviceGoesOn 0 12 ++ cancelCall :: serviceGoesOn 1 11

/-- After this run each call has published its own event, so no commit was disturbed. -/
theorem publishes_own_events_orderly :
    RunMeets (step (itemMutation reviewQueues lengthHash)) Undisturbed
      (State.start (itemMutation reviewQueues lengthHash) ⟨waitingItem, []⟩) orderlyRun := by
  have hprobe : (run (step (itemMutation reviewQueues lengthHash))
      (State.start (itemMutation reviewQueues lengthHash) ⟨waitingItem, []⟩) orderlyRun).map
        (fun s => s.committed.history) =
      some [⟨[claimEvent], [claimEvent]⟩, ⟨[cancelEvent], [cancelEvent]⟩] := by
    decide
  obtain ⟨s, hs, hhistory⟩ := Option.map_eq_some_iff.mp hprobe
  refine (publishes_own_events_iff (by decide) hs).1.mp ?_
  rw [hhistory]
  simp

/-- The cancellation counts the events before the claim commits, and waits for the row after it. -/
def overlappingRun : List (Label (Option Call)) :=
  cancelCall :: serviceGoesOn 1 1 ++ claimCall :: serviceGoesOn 0 12 ++ serviceGoesOn 1 10

/-- The cancellation publishes the event of the claim as well, which is then published twice. -/
theorem claim_event_published_twice :
    ∃ s, run (step (itemMutation reviewQueues lengthHash))
        (State.start (itemMutation reviewQueues lengthHash) ⟨waitingItem, []⟩) overlappingRun =
          some s ∧
      s.committed.history =
        [⟨[claimEvent], [claimEvent]⟩, ⟨[cancelEvent], [claimEvent, cancelEvent]⟩] ∧
      ¬((s.committed.history.flatMap CallRecord.published).map ItemEvent.id).Nodup := by
  have hprobe : (run (step (itemMutation reviewQueues lengthHash))
      (State.start (itemMutation reviewQueues lengthHash) ⟨waitingItem, []⟩) overlappingRun).map
        (fun s => s.committed.history) =
      some [⟨[claimEvent], [claimEvent]⟩, ⟨[cancelEvent], [claimEvent, cancelEvent]⟩] := by
    decide
  obtain ⟨s, hs, hhistory⟩ := Option.map_eq_some_iff.mp hprobe
  refine ⟨s, hs, hhistory, ?_⟩
  rw [hhistory]
  decide

end Stynx.Worklist
