import Stynx.OutboxDelivery

/-!
# The cutover of legacy messages to the event log

The cutover runs once, in one transaction, while legacy workers may hold claimed
messages. The invariant ties each message to its event after the cutover and
says that there is no such tie before it. Every other transaction keeps the
ties.
-/

namespace Stynx.OutboxCutover

open OutboxTables OutboxDelivery TransitionRuns OrderedMap

/-- The members of a message that a migration fixes. -/
def SameLink (m m' : Message) : Prop :=
  m'.tenantId = m.tenantId ∧ m'.entity = m.entity ∧ m'.entityId = m.entityId ∧
    m'.migratedEventId = m.migratedEventId

theorem SameLink.refl (m : Message) : SameLink m m := ⟨rfl, rfl, rfl, rfl⟩

/-- A transaction that leaves the ties between messages, events and delivery rows alone. -/
structure LegacyFrame (db db' : Db) : Prop where
  /-- The ownership marker stays. -/
  ownership : db'.ownership = db.ownership
  /-- The mapping stays. -/
  legacyEventMap : db'.legacyEventMap = db.legacyEventMap
  /-- A message is an earlier one, or it is new and not migrated. -/
  messages : ∀ id m', db'.messages.get? id = some m' →
    (∃ m, db.messages.get? id = some m ∧ SameLink m m') ∨
      db.ownership = .legacy ∧ m'.migratedEventId = none
  events : ∀ id e, db.events.get? id = some e → db'.events.get? id = some e
  /-- Delivery rows keep their messages. -/
  deliveries : ∀ key d, db.deliveries.get? key = some d →
    ∃ d', db'.deliveries.get? key = some d' ∧ d'.legacyId = d.legacyId
  /-- A new delivery row belongs to no message. -/
  origin : ∀ key d', db'.deliveries.get? key = some d' →
    (∃ d, db.deliveries.get? key = some d ∧ d'.legacyId = d.legacyId) ∨ d'.legacyId = none

theorem LegacyFrame.refl (db : Db) : LegacyFrame db db where
  ownership := rfl
  legacyEventMap := rfl
  messages _ m h := .inl ⟨m, h, SameLink.refl m⟩
  events _ _ h := h
  deliveries _ d h := ⟨d, h, rfl⟩
  origin _ d h := .inl ⟨d, h, rfl⟩

variable {db db' : Db} {key k : DeliveryKey} {now : Int} {id : String} {message m : Message}
  {generation reading : Nat} {result : Unit} {d : Delivery}

theorem LegacyFrame.of_updates (h : Updates db db') (ho : db'.ownership = db.ownership)
    (hmap : db'.legacyEventMap = db.legacyEventMap)
    (hm : ∀ id m', db'.messages.get? id = some m' →
      (∃ m, db.messages.get? id = some m ∧ SameLink m m') ∨
        db.ownership = .legacy ∧ m'.migratedEventId = none) : LegacyFrame db db' where
  ownership := ho
  legacyEventMap := hmap
  messages := hm
  events id e he := by rw [h.events, he]
  deliveries key d hd := by
    obtain ⟨d', hd', hrow⟩ := h.row key d hd
    exact ⟨d', hd', hrow.legacyId⟩
  origin key d' hd' := by
    obtain ⟨d, hd⟩ := h.origin key d' hd'
    obtain ⟨d₁, hd₁, hrow⟩ := h.row key d hd
    cases hd'.symm.trans hd₁
    exact .inl ⟨d, hd, hrow.legacyId⟩

theorem messages_same (h : db'.messages = db.messages) :
    ∀ id m', db'.messages.get? id = some m' →
      (∃ m, db.messages.get? id = some m ∧ SameLink m m') ∨
        db.ownership = .legacy ∧ m'.migratedEventId = none := by
  intro id m' hm'
  rw [h] at hm'
  exact .inl ⟨m', hm', SameLink.refl m'⟩

theorem messages_set {id₀ : String} {m₀ m₁ : Message} (h : db'.messages = db.messages.set id₀ m₁)
    (hm₀ : db.messages.get? id₀ = some m₀) (hlink : SameLink m₀ m₁) :
    ∀ id m', db'.messages.get? id = some m' →
      (∃ m, db.messages.get? id = some m ∧ SameLink m m') ∨
        db.ownership = .legacy ∧ m'.migratedEventId = none := by
  intro id m' hm'
  rw [h] at hm'
  rcases get?_set_eq_some.mp hm' with ⟨rfl, rfl⟩ | ⟨-, hm⟩
  · exact .inl ⟨m₀, hm₀, hlink⟩
  · exact .inl ⟨m', hm, SameLink.refl m'⟩

/-- The tie of a message to its event and delivery row. -/
def Migrated (db : Db) (id : String) (m : Message) : Prop :=
  ∃ eventId generation e d, m.migratedEventId = some eventId ∧
    db.legacyEventMap.get? id = some ⟨m.tenantId, eventId, generation⟩ ∧
    db.events.get? eventId = some e ∧ e.tenantId = m.tenantId ∧ e.entity = m.entity ∧
    e.entityId = m.entityId ∧ db.deliveries.get? (m.tenantId, eventId) = some d ∧
    d.legacyId = some id

/-- What holds of the legacy tables between transactions. -/
structure CutoverInvariant (db : Db) : Prop where
  base : Invariant db
  /-- Before the cutover no message is tied to an event. -/
  unmigrated : db.ownership = .legacy →
    (∀ id m, db.messages.get? id = some m → m.migratedEventId = none) ∧
      ∀ id, db.legacyEventMap.get? id = none
  /-- After the cutover every message is tied to an event. -/
  migrated : db.ownership = .new → ∀ id m, db.messages.get? id = some m → Migrated db id m
  /-- A row that names a message is the one the mapping names. -/
  linked : ∀ key d id, db.deliveries.get? key = some d → d.legacyId = some id →
    ∃ generation, db.legacyEventMap.get? id = some ⟨key.1, key.2, generation⟩

theorem cutoverInvariant_empty : CutoverInvariant Db.empty where
  base := invariant_empty
  unmigrated := by simp [Db.empty]
  migrated := by simp [Db.empty]
  linked := by simp [Db.empty]

theorem CutoverInvariant.frame (hdb : CutoverInvariant db) (hbase : Invariant db')
    (h : LegacyFrame db db') : CutoverInvariant db' where
  base := hbase
  unmigrated hlegacy := by
    rw [h.ownership] at hlegacy
    obtain ⟨hmessages, hmap⟩ := hdb.unmigrated hlegacy
    refine ⟨?_, fun id => by rw [h.legacyEventMap, hmap id]⟩
    intro id m' hm'
    rcases h.messages id m' hm' with ⟨m, hm, hlink⟩ | ⟨-, hnone⟩
    · exact hlink.2.2.2.trans (hmessages id m hm)
    · exact hnone
  migrated hnew id m' hm' := by
    rw [h.ownership] at hnew
    rcases h.messages id m' hm' with ⟨m, hm, htenant, hentity, hentityId, hmigrated⟩ | ⟨hlegacy, -⟩
    · obtain ⟨eventId, generation, e, d, h₁, h₂, h₃, h₄, h₅, h₆, h₇, h₈⟩ :=
        hdb.migrated hnew id m hm
      obtain ⟨d', hd', hlegacyId⟩ := h.deliveries _ d h₇
      refine ⟨eventId, generation, e, d', hmigrated.trans h₁, ?_, h.events eventId e h₃, ?_, ?_, ?_,
        ?_, hlegacyId.trans h₈⟩
      · rw [h.legacyEventMap, htenant, h₂]
      · rw [htenant, h₄]
      · rw [hentity, h₅]
      · rw [hentityId, h₆]
      · rw [htenant, hd']
    · rw [hnew] at hlegacy
      cases hlegacy
  linked key d' id hd' hid := by
    rcases h.origin key d' hd' with ⟨d, hd, hlegacyId⟩ | hnone
    · rw [h.legacyEventMap]
      exact hdb.linked key d id hd (hlegacyId.symm.trans hid)
    · rw [hnone] at hid
      cases hid

/-- A transaction that only adds events and rows of its own. -/
structure Appends (db db' : Db) : Prop where
  /-- The ownership marker stays. -/
  ownership : db'.ownership = db.ownership
  /-- The mapping stays. -/
  legacyEventMap : db'.legacyEventMap = db.legacyEventMap
  messages : db'.messages = db.messages
  events : ∀ id e, db.events.get? id = some e → db'.events.get? id = some e
  /-- Delivery rows stay as they are. -/
  kept : ∀ key d, db.deliveries.get? key = some d → db'.deliveries.get? key = some d
  /-- A new delivery row belongs to no message. -/
  origin : ∀ key d, db'.deliveries.get? key = some d →
    db.deliveries.get? key = some d ∨ d.legacyId = none

theorem Appends.of_same (ho : db'.ownership = db.ownership)
    (hmap : db'.legacyEventMap = db.legacyEventMap) (hm : db'.messages = db.messages)
    (he : db'.events = db.events) (hd : db'.deliveries = db.deliveries) : Appends db db' where
  ownership := ho
  legacyEventMap := hmap
  messages := hm
  events id e h := by rw [he, h]
  kept key d h := by rw [hd, h]
  origin key d h := .inl (by rw [← hd, h])

theorem Appends.refl (db : Db) : Appends db db := .of_same rfl rfl rfl rfl rfl

theorem Appends.trans {mid : Db} (h : Appends db mid) (h' : Appends mid db') : Appends db db' where
  ownership := h'.ownership.trans h.ownership
  legacyEventMap := h'.legacyEventMap.trans h.legacyEventMap
  messages := h'.messages.trans h.messages
  events id e he := h'.events id e (h.events id e he)
  kept key d hd := h'.kept key d (h.kept key d hd)
  origin key d hd := by
    rcases h'.origin key d hd with hmid | hnone
    · exact h.origin key d hmid
    · exact .inr hnone

theorem Appends.frame (h : Appends db db') : LegacyFrame db db' where
  ownership := h.ownership
  legacyEventMap := h.legacyEventMap
  messages := messages_same h.messages
  events := h.events
  deliveries key d hd := ⟨d, h.kept key d hd, rfl⟩
  origin key d hd := by
    rcases h.origin key d hd with hold | hnone
    · exact .inl ⟨d, hold, rfl⟩
    · exact .inr hnone

theorem appendOne_appends (policy : Policy) (hdb : Invariant db) (tenantId : String) (ms : Nat)
    (now : Int) (event : AppendEvent) :
    Appends db (appendOne policy tenantId ms now db event).1 := by
  unfold appendOne
  split
  · exact Appends.refl db
  · split
    · exact Appends.refl db
    · rename_i order _
      split
      · dsimp only
        split
        · exact .of_same rfl rfl rfl rfl rfl
        · exact .of_same rfl rfl rfl rfl rfl
      · rcases insertEvent_cases db ms order ⟨tenantId, event.entity, event.entityId,
            event.idempotencyKey, event.payload, event.metadata, ms⟩ with ⟨e, hins⟩ | ⟨hins, hnew⟩
        · rw [hins]
          exact .of_same rfl rfl rfl rfl rfl
        · rw [hins]
          have hevents : ∀ id e, db.events.get? id = some e →
              (db.events.set (eventUuid ms order) ⟨tenantId, event.entity, event.entityId,
                event.idempotencyKey, event.payload, event.metadata, ms⟩).get? id = some e := by
            intro id e he
            rw [get?_set_of_ne, he]
            rintro rfl
            rw [hnew] at he
            cases he
          dsimp only
          split
          · have hfresh := hdb.delivery_fresh hnew tenantId
            refine ⟨rfl, rfl, rfl, hevents, ?_, ?_⟩
            · intro key d hd
              rw [get?_set_of_ne, hd]
              rintro rfl
              rw [hfresh] at hd
              cases hd
            · intro key d hd
              rcases get?_set_eq_some.mp hd with ⟨-, rfl⟩ | ⟨-, hd'⟩
              · exact .inr rfl
              · exact .inl hd'
          · exact ⟨rfl, rfl, rfl, hevents, fun _ _ hd => hd, fun _ _ hd => .inl hd⟩

theorem appendLoop_appends (policy : Policy) {tenantId : String} {ms : Nat} (now : Int)
    (events : List AppendEvent) (hdb : Invariant db)
    (hms : ms = (db.tenantClock.get? tenantId).getD 0) :
    Appends db (appendLoop policy tenantId ms now db events).1 := by
  induction events generalizing db with
  | nil => exact Appends.refl db
  | cons event rest ih =>
    have hone := appendOne_appends policy hdb tenantId ms now event
    obtain ⟨hprogress, hclock⟩ := appendOne_progress policy hdb hms now event
    rw [appendLoop]
    split
    · rename_i db' e hstep
      rw [hstep] at hone
      exact hone
    · rename_i db' id hstep
      rw [hstep] at hone hclock hprogress
      dsimp only at hone hclock hprogress
      have hrest := ih hprogress.invariant (by rw [hclock]; exact hms)
      split
      · rename_i hloop
        rw [hloop] at hrest
        exact hone.trans hrest
      · rename_i hloop
        rw [hloop] at hrest
        exact hone.trans hrest

theorem append_appends (policy : Policy) (hdb : Invariant db) (tenantId : String) (reading : Nat)
    (now : Int) (events : List AppendEvent) (commits : Bool) :
    Appends db (appendManyInTransaction policy db tenantId reading now events commits).1 := by
  unfold appendManyInTransaction
  split
  · exact Appends.refl db
  · dsimp only
    have hclocked := hdb.advance tenantId reading
    have hadvance : Appends db
        { db with tenantClock := advanceClock db.tenantClock tenantId reading } :=
      .of_same rfl rfl rfl rfl rfl
    have hloop := appendLoop_appends policy now events hclocked
      (clockValue_eq db.tenantClock tenantId reading).symm
    split
    · exact .of_same rfl rfl rfl rfl rfl
    · rename_i reached ids hreached
      rw [hreached] at hloop
      split
      · exact hadvance.trans hloop
      · exact .of_same rfl rfl rfl rfl rfl

variable {role : CompletionRole} {ordinal : Nat} {error : Option String} {start : Db}
  {clock : Nat → Nat}

theorem completeAttempt_frame {result : AttemptResult}
    (h : completeAttempt db role key ordinal result error now = .ok db') :
    db'.ownership = db.ownership ∧ db'.legacyEventMap = db.legacyEventMap ∧
      db'.messages = db.messages := by
  unfold completeAttempt at h
  split at h
  · cases h
    exact ⟨rfl, rfl, rfl⟩
  · split_ifs at h
    cases h
    exact ⟨rfl, rfl, rfl⟩

/-- What the event transactions leave alone besides rewriting delivery rows. -/
def SameLegacy (db db' : Db) : Prop :=
  db'.ownership = db.ownership ∧ db'.legacyEventMap = db.legacyEventMap ∧ db'.messages = db.messages

section

variable (policy : Policy) (db : Db) (role : CompletionRole) (key : DeliveryKey) (ordinal : Nat)

theorem completeSent_legacy (now : Int) :
    SameLegacy db (completeSent policy db role key ordinal now).1 := by
  unfold completeSent
  dsimp only
  split
  · exact ⟨rfl, rfl, rfl⟩
  · rename_i db' h
    obtain ⟨ho, hmap, hm⟩ := completeAttempt_frame h
    exact ⟨ho, hmap, hm⟩

theorem completeError_legacy (message : String) (now : Int) :
    SameLegacy db (completeError policy db role key ordinal message now).1 := by
  unfold completeError
  dsimp only
  split
  · exact ⟨rfl, rfl, rfl⟩
  · rename_i db' h
    obtain ⟨ho, hmap, hm⟩ := completeAttempt_frame h
    exact ⟨ho, hmap, hm⟩

end

theorem ackEvent_legacy (policy : Policy) (db : Db) (tenantId : String) (eventId : Option Nat)
    (idempotencyKey : Option String) (status : AckStatus) (hmacVerified : Bool) (now : Int) :
    SameLegacy db
      (ackEvent policy db tenantId eventId idempotencyKey status hmacVerified now).1 := by
  unfold ackEvent
  split
  · exact ⟨rfl, rfl, rfl⟩
  · split
    · exact ⟨rfl, rfl, rfl⟩
    · split
      · exact ⟨rfl, rfl, rfl⟩
      · exact ⟨rfl, rfl, rfl⟩

theorem retryEvent_legacy (policy : Policy) (db : Db) (key : DeliveryKey) (immediate : Bool)
    (now : Int) : SameLegacy db (retryEvent policy db key immediate now).1 := by
  unfold retryEvent
  split
  · exact ⟨rfl, rfl, rfl⟩
  · split <;> exact ⟨rfl, rfl, rfl⟩

theorem retireEvent_legacy (db : Db) (key : DeliveryKey) (input : RetirementInput)
    (actorId : String) (now : Int) : SameLegacy db (retireEvent db key input actorId now).1 := by
  unfold retireEvent
  split
  · exact ⟨rfl, rfl, rfl⟩
  · split
    · exact ⟨rfl, rfl, rfl⟩
    · split
      · split
        · exact ⟨rfl, rfl, rfl⟩
        · split <;> exact ⟨rfl, rfl, rfl⟩
      · split
        · exact ⟨rfl, rfl, rfl⟩
        · split
          · exact ⟨rfl, rfl, rfl⟩
          · split <;> exact ⟨rfl, rfl, rfl⟩

theorem SameLegacy.frame (h : SameLegacy db db') (hu : Updates db db') : LegacyFrame db db' :=
  .of_updates hu h.1 h.2.1 (messages_same h.2.2)

theorem enqueue_frame (db : Db) (tenantId : String) (envelope : Envelope) (uuid : String)
    (now : Int) : LegacyFrame db (enqueue db tenantId envelope uuid now).1 := by
  have hu := enqueue_updates db tenantId envelope uuid now
  unfold enqueue at hu ⊢
  dsimp only at hu ⊢
  split
  · exact LegacyFrame.refl db
  · rename_i howner
    split
    · rename_i id m hfind
      split
      · exact LegacyFrame.refl db
      · have hm : db.messages.get? id = some m :=
          mem_entries_iff.mp (List.mem_of_find?_eq_some hfind)
        exact .of_updates (.of_same rfl rfl (le_refl _) rfl) rfl rfl
          (messages_set rfl hm ⟨rfl, rfl, rfl, rfl⟩)
    · split
      · exact LegacyFrame.refl db
      · refine .of_updates (.of_same rfl rfl (le_refl _) rfl) rfl rfl ?_
        intro id m' hm'
        rcases get?_set_eq_some.mp hm' with ⟨-, rfl⟩ | ⟨-, hm⟩
        · exact .inr ⟨not_not.mp howner, rfl⟩
        · exact .inl ⟨m', hm, SameLink.refl m'⟩

theorem claimDue_frame (db : Db) (limit : Nat) (locked : List String) (now : Int) :
    LegacyFrame db (claimDue db limit locked now).1 := by
  refine .of_updates (claimDue_updates db limit locked now) rfl rfl ?_
  intro id m' hm'
  unfold claimDue at hm'
  dsimp only at hm'
  rw [get?_mapValues, Option.map_eq_some_iff] at hm'
  obtain ⟨m, hm, rfl⟩ := hm'
  refine .inl ⟨m, hm, ?_⟩
  split_ifs
  · exact ⟨rfl, rfl, rfl, rfl⟩
  · exact SameLink.refl m

theorem rerouteFailure_legacy (db : Db) (id : String) (message : Message) (attempts : Nat)
    (text : String) (next now : Int) :
    SameLegacy db (rerouteFailure db id message attempts text next now) := by
  unfold rerouteFailure
  split <;> exact ⟨rfl, rfl, rfl⟩

theorem recordDispatchFailure_frame (policy : Policy) (db : Db) (id : String) (attempts : Nat)
    (text : String) (now : Int) :
    LegacyFrame db (recordDispatchFailure policy db id attempts text now).1 := by
  have hu := recordDispatchFailure_updates policy db id attempts text now
  unfold recordDispatchFailure at hu ⊢
  dsimp only at hu ⊢
  cases hm : db.messages.get? id with
  | none => exact LegacyFrame.refl db
  | some message =>
    simp only [hm] at hu
    dsimp only
    split at hu
    · rename_i hacked
      rw [if_pos hacked]
      exact (rerouteFailure_legacy _ _ _ _ _ _ _).frame hu
    · rename_i hacked
      rw [if_neg hacked]
      obtain ⟨ho, hmap, hmessages⟩ := rerouteFailure_legacy
        { db with messages := db.messages.set id { message with
            status := .error
            lastError := some (String.ofList (text.toList.take 4000))
            nextAttemptAt := some (policy.nextAttemptAt attempts now)
            updatedAt := now } } id message attempts text (policy.nextAttemptAt attempts now) now
      exact .of_updates hu ho hmap (messages_set hmessages hm ⟨rfl, rfl, rfl, rfl⟩)

theorem retry_frame (policy : Policy) (db : Db) (id : String) (immediate : Bool) (now : Int) :
    LegacyFrame db (retry policy db id immediate now).1 := by
  unfold retry
  cases hm : db.messages.get? id with
  | none => exact LegacyFrame.refl db
  | some message =>
    dsimp only
    split
    · exact LegacyFrame.refl db
    · exact .of_updates (.of_same rfl rfl (le_refl _) rfl) rfl rfl
        (messages_set rfl hm ⟨rfl, rfl, rfl, rfl⟩)

theorem ackTargets_singleton {input : AckInput} (h : ackTargets db input = [(id, message)]) :
    db.messages.get? id = some message := by
  have hmem : (id, message) ∈ ackTargets db input := by
    rw [h]
    exact .head _
  exact mem_entries_iff.mp (List.mem_filter.mp hmem).1

theorem rerouteAck_legacy (db : Db) (message : Message) (status : AckStatus) (next : Option Int)
    (now : Int) : SameLegacy db (rerouteAck db message status next now) := by
  unfold rerouteAck
  split <;> exact ⟨rfl, rfl, rfl⟩

theorem ack_frame (policy : Policy) (db : Db) (input : AckInput) (now : Int) :
    LegacyFrame db (OutboxTables.ack policy db input now).1 := by
  have hu := ack_updates policy db input now
  unfold OutboxTables.ack at hu ⊢
  split
  · exact LegacyFrame.refl db
  · rename_i id message htarget
    simp only [htarget] at hu
    dsimp only at hu ⊢
    have hm := ackTargets_singleton htarget
    obtain ⟨ho, hmap, hmessages⟩ := rerouteAck_legacy
      { db with
        messages := db.messages.set id (ackMessage message input
          (if input.status = .error then some (policy.nextAttemptAt message.attempts now)
            else none) now)
        acknowledgements :=
          insertIfAbsent db.acknowledgements id ⟨input.status, input.detail, now⟩ }
      message input.status
      (if input.status = .error then some (policy.nextAttemptAt message.attempts now) else none) now
    exact .of_updates hu ho hmap (messages_set hmessages hm ⟨rfl, rfl, rfl, rfl⟩)
  · exact LegacyFrame.refl db

theorem exec_frame (policy : Policy) (hdb : Invariant db) (a : Label)
    (ha : ∀ clock now, a ≠ .cutover clock now) : LegacyFrame db (exec policy db a) := by
  cases a with
  | append tenantId reading now events commits =>
    exact (append_appends policy hdb tenantId reading now events commits).frame
  | claim input =>
    exact .of_updates (claimEvents_updates policy db input) rfl rfl (messages_same rfl)
  | sent role key ordinal now =>
    exact (completeSent_legacy policy db role key ordinal now).frame
      (completeSent_updates policy db role key ordinal now)
  | failed role key ordinal message now =>
    exact (completeError_legacy policy db role key ordinal message now).frame
      (completeError_updates policy db role key ordinal message now)
  | ackEvent tenantId eventId idempotencyKey status hmacVerified now =>
    exact (ackEvent_legacy policy db tenantId eventId idempotencyKey status hmacVerified now).frame
      (ackEvent_updates policy db tenantId eventId idempotencyKey status hmacVerified now)
  | retryEvent key immediate now =>
    exact (retryEvent_legacy policy db key immediate now).frame
      (retryEvent_updates policy db key immediate now)
  | retireEvent key input actorId now =>
    exact (retireEvent_legacy db key input actorId now).frame
      (retireEvent_updates db key input actorId now)
  | enqueue tenantId envelope uuid now => exact enqueue_frame db tenantId envelope uuid now
  | claimDue limit locked now => exact claimDue_frame db limit locked now
  | recordDispatchFailure id attempts text now =>
    exact recordDispatchFailure_frame policy db id attempts text now
  | retry id immediate now => exact retry_frame policy db id immediate now
  | ack input now => exact ack_frame policy db input now
  | cutover clock now => exact absurd rfl (ha clock now)

theorem migrateOne_ok (h : migrateOne generation reading now db id message = (db', .ok result)) :
    ∃ order eventId e, db.events.get? eventId = none ∧ e.tenantId = message.tenantId ∧
      e.entity = message.entity ∧ e.entityId = message.entityId ∧
      db' = recordMigration
        { db with
          tenantClock := advanceClock db.tenantClock message.tenantId reading
          eventOrder := order
          events := db.events.set eventId e } id message eventId generation now := by
  unfold migrateOne at h
  dsimp only at h
  split at h
  · cases h
  · rename_i order _
    split at h
    · cases h
    · rcases insertEvent_cases
          { db with tenantClock := advanceClock db.tenantClock message.tenantId reading }
          (clockValue db.tenantClock message.tenantId reading) order
          (migratedEvent message (clockValue db.tenantClock message.tenantId reading))
        with ⟨e, hins⟩ | ⟨hins, hnew⟩
      · rw [hins] at h
        cases h
      · rw [hins] at h
        dsimp only at h
        split at h
        · cases h
        · cases h
          exact ⟨order, _, _, hnew, rfl, rfl, rfl, rfl⟩

/-- A message of the first tables and the rows it was migrated to. -/
def Carried (db : Db) (now : Int) (id : String) (m : Message) : Prop :=
  ∃ eventId generation, db.messages.get? id =
      some { m with migratedEventId := some eventId, cutoverGeneration := some generation } ∧
    db.deliveries.get? (m.tenantId, eventId) = some (migratedDelivery id m now)

/-- The state of the migration loop: the remaining rows are untouched, the others are tied. -/
structure LoopInvariant (start : Db) (now : Int) (db : Db) (rest : List (Nat × String × Message)) :
    Prop where
  base : Invariant db
  /-- Each remaining message occurs once. -/
  nodup : (rest.map fun p => p.2.1).Nodup
  /-- A remaining message is stored as it was read and not tied. -/
  remaining : ∀ reading id m, (reading, id, m) ∈ rest →
    db.messages.get? id = some m ∧ db.legacyEventMap.get? id = none
  /-- Every other message is tied. -/
  done : ∀ id m, db.messages.get? id = some m → (∀ p ∈ rest, p.2.1 ≠ id) → Migrated db id m
  /-- A row that names a message is the one the mapping names. -/
  linked : ∀ key d id, db.deliveries.get? key = some d → d.legacyId = some id →
    ∃ generation, db.legacyEventMap.get? id = some ⟨key.1, key.2, generation⟩
  /-- Every message of the first tables is still to come or carried over. -/
  carried : ∀ id m, start.messages.get? id = some m →
    (∃ reading, (reading, id, m) ∈ rest) ∨ Carried db now id m

theorem LoopInvariant.step {rest : List (Nat × String × Message)}
    (h : LoopInvariant start now db ((reading, id, message) :: rest))
    (hstep : migrateOne generation reading now db id message = (db', .ok result)) :
    LoopInvariant start now db' rest := by
  have hbase : Invariant db' := by
    have hprogress := migrateOne_progress h.base generation reading now id message
    rw [hstep] at hprogress
    exact hprogress.invariant
  obtain ⟨order, eventId, e, hnew, htenant, hentity, hentityId, rfl⟩ := migrateOne_ok hstep
  obtain ⟨hstored, hunmapped⟩ := h.remaining reading id message (.head _)
  have hnodup := h.nodup
  rw [List.map_cons, List.nodup_cons] at hnodup
  have hother : ∀ reading' id' m', (reading', id', m') ∈ rest → id ≠ id' := by
    rintro reading' id' m' hmem rfl
    exact hnodup.1 (List.mem_map.mpr ⟨_, hmem, rfl⟩)
  have hfresh := h.base.delivery_fresh hnew message.tenantId
  have hdelivery : ∀ key d, db.deliveries.get? key = some d →
      (message.tenantId, eventId) ≠ key := by
    rintro key d hd rfl
    rw [hfresh] at hd
    cases hd
  have hunlinked : ∀ key d, db.deliveries.get? key = some d → d.legacyId ≠ some id := by
    intro key d hd hlegacy
    obtain ⟨_, hmap⟩ := h.linked key d id hd hlegacy
    rw [hunmapped] at hmap
    cases hmap
  refine ⟨hbase, hnodup.2, ?_, ?_, ?_, ?_⟩
  · intro reading' id' m' hmem
    have hne := hother reading' id' m' hmem
    obtain ⟨hm, hmap⟩ := h.remaining reading' id' m' (.tail _ hmem)
    constructor
    · exact (get?_set_of_ne _ _ hne).trans hm
    · exact (get?_set_of_ne _ _ hne).trans hmap
  · intro id' m' hm' hrest
    by_cases hid : id = id'
    · subst hid
      have hm : some m' = some { message with
          migratedEventId := some eventId, cutoverGeneration := some generation } :=
        hm'.symm.trans (get?_set_self db.messages id _)
      cases hm
      exact ⟨eventId, generation, e, migratedDelivery id message now, rfl,
        get?_set_self _ _ _, get?_set_self _ _ _, htenant, hentity, hentityId,
        get?_set_self _ _ _, rfl⟩
    · have hold : db.messages.get? id' = some m' :=
        (get?_set_of_ne _ _ hid).symm.trans hm'
      have hdone : ∀ p ∈ (reading, id, message) :: rest, p.2.1 ≠ id' := by
        intro p hp
        rcases List.mem_cons.mp hp with rfl | hp
        · exact hid
        · exact hrest p hp
      obtain ⟨eventId', generation', e', d', h₁, h₂, h₃, h₄, h₅, h₆, h₇, h₈⟩ :=
        h.done id' m' hold hdone
      refine ⟨eventId', generation', e', d', h₁, ?_, ?_, h₄, h₅, h₆, ?_, h₈⟩
      · exact (get?_set_of_ne _ _ hid).trans h₂
      · refine (get?_set_of_ne _ _ ?_).trans h₃
        rintro rfl
        rw [hnew] at h₃
        cases h₃
      · exact (get?_set_of_ne _ _ (hdelivery _ d' h₇)).trans h₇
  · intro key d id' hd hlegacy
    rcases get?_set_eq_some.mp hd with ⟨rfl, rfl⟩ | ⟨-, hd'⟩
    · cases hlegacy
      exact ⟨generation, get?_set_self _ _ _⟩
    · obtain ⟨generation', hmap⟩ := h.linked key d id' hd' hlegacy
      refine ⟨generation', (get?_set_of_ne _ _ ?_).trans hmap⟩
      rintro rfl
      exact hunlinked key d hd' hlegacy
  · intro id' m' hm'
    rcases h.carried id' m' hm' with ⟨reading', hmem⟩ | ⟨eventId', generation', hmessage, hrow⟩
    · rcases List.mem_cons.mp hmem with heq | hmem
      · cases heq
        exact .inr ⟨eventId, generation, get?_set_self _ _ _, get?_set_self _ _ _⟩
      · exact .inl ⟨reading', hmem⟩
    · refine .inr ⟨eventId', generation', (get?_set_of_ne _ _ ?_).trans hmessage,
        (get?_set_of_ne _ _ (hdelivery _ _ hrow)).trans hrow⟩
      rintro rfl
      exact hunlinked _ _ hrow rfl

theorem migrateLoop_done (rest : List (Nat × String × Message))
    (h : LoopInvariant start now db rest)
    (hloop : migrateLoop generation now db rest = (db', .ok result)) :
    LoopInvariant start now db' [] := by
  induction rest generalizing db with
  | nil =>
    cases hloop
    exact h
  | cons row rest ih =>
    obtain ⟨reading, id, message⟩ := row
    rw [migrateLoop] at hloop
    split at hloop
    · cases hloop
    · rename_i db₁ _ hstep
      exact ih (h.step hstep) hloop

def clockedRows (db : Db) (clock : Nat → Nat) : List (Nat × String × Message) :=
  (migrationRows db).zipIdx.map fun p => (clock p.2, p.1.1, p.1.2)

theorem clockedRows_ids (db : Db) (clock : Nat → Nat) :
    (clockedRows db clock).map (fun p => p.2.1) = (migrationRows db).map Prod.fst := by
  rw [clockedRows, List.map_map]
  have hfst : ((fun p : Nat × String × Message => p.2.1) ∘ fun p : (String × Message) × Nat =>
      (clock p.2, p.1.1, p.1.2)) = Prod.fst ∘ Prod.fst := rfl
  rw [hfst, ← List.map_map, List.zipIdx_map_fst]

theorem mem_clockedRows (h : (reading, id, m) ∈ clockedRows db clock) :
    db.messages.get? id = some m := by
  obtain ⟨⟨⟨id', m'⟩, n⟩, hmem, heq⟩ := List.mem_map.mp h
  cases heq
  have hrow : (id', m') ∈ migrationRows db := by
    rw [← List.zipIdx_map_fst 0 (migrationRows db)]
    exact List.mem_map.mpr ⟨_, hmem, rfl⟩
  exact mem_entries_iff.mp ((List.mem_insertionSort _).mp hrow)

theorem exists_mem_clockedRows (h : db.messages.get? id = some m) (clock : Nat → Nat) :
    ∃ reading, (reading, id, m) ∈ clockedRows db clock := by
  have hrow : (id, m) ∈ migrationRows db :=
    (List.mem_insertionSort _).mpr (mem_entries_iff.mpr h)
  rw [← List.zipIdx_map_fst 0 (migrationRows db)] at hrow
  obtain ⟨⟨p, n⟩, hmem, heq⟩ := List.mem_map.mp hrow
  cases heq
  exact ⟨clock n, List.mem_map.mpr ⟨_, hmem, rfl⟩⟩

theorem CutoverInvariant.loop (hdb : CutoverInvariant db) (hlegacy : db.ownership = .legacy)
    (clock : Nat → Nat) (now : Int) : LoopInvariant db now db (clockedRows db clock) where
  base := hdb.base
  nodup := by
    rw [clockedRows_ids]
    have hperm : ((migrationRows db).map Prod.fst).Perm (db.messages.entries.map Prod.fst) :=
      (List.perm_insertionSort _ _).map Prod.fst
    exact hperm.nodup_iff.mpr db.messages.nodup
  remaining reading id m hmem := ⟨mem_clockedRows hmem, (hdb.unmigrated hlegacy).2 id⟩
  done id m hm hrest := by
    obtain ⟨reading, hmem⟩ := exists_mem_clockedRows hm clock
    exact absurd rfl (hrest _ hmem)
  linked := hdb.linked
  carried id m hm := .inl (exists_mem_clockedRows hm clock)

theorem cutover_cases (hdb : CutoverInvariant db) (hlegacy : db.ownership = .legacy)
    (clock : Nat → Nat) (now : Int) :
    (∃ reached e, cutoverLegacyMessages db clock now = (rollback db reached, .error e)) ∨
    ∃ reached result, LoopInvariant db now reached [] ∧
      cutoverLegacyMessages db clock now =
        ({ reached with ownership := .new, generation := db.generation + 1 }, .ok result) := by
  unfold cutoverLegacyMessages
  rw [hlegacy]
  dsimp only
  split
  · rename_i reached e _
    exact .inl ⟨reached, e, rfl⟩
  · rename_i reached _ hloop
    exact .inr ⟨reached, _, migrateLoop_done _ (hdb.loop hlegacy clock now) hloop, rfl⟩

theorem cutover_of_new (hnew : db.ownership = .new) (clock : Nat → Nat) (now : Int) :
    (cutoverLegacyMessages db clock now).1 = db := by
  unfold cutoverLegacyMessages
  rw [hnew]

theorem cutover_invariant (hdb : CutoverInvariant db) (clock : Nat → Nat) (now : Int) :
    CutoverInvariant (cutoverLegacyMessages db clock now).1 := by
  have hbase := (cutover_progress hdb.base clock now).invariant
  cases howner : db.ownership with
  | new =>
    rw [cutover_of_new howner]
    exact hdb
  | legacy =>
    rcases cutover_cases hdb howner clock now with ⟨reached, e, hcut⟩ | ⟨reached, result, hloop, hcut⟩
    · rw [hcut] at hbase ⊢
      have hrollback : Appends db (rollback db reached) := .of_same rfl rfl rfl rfl rfl
      exact hdb.frame hbase hrollback.frame
    · rw [hcut] at hbase ⊢
      exact
        { base := hbase
          unmigrated := fun h => by cases h
          migrated := fun _ id m hm => hloop.done id m hm fun _ hp => by cases hp
          linked := hloop.linked }

theorem step_cutoverInvariant (policy : Policy) (db : Db) (a : Label) (db' : Db)
    (hdb : CutoverInvariant db) (h : step policy db a = some db') : CutoverInvariant db' := by
  cases h
  by_cases ha : ∃ clock now, a = .cutover clock now
  · obtain ⟨clock, now, rfl⟩ := ha
    exact cutover_invariant hdb clock now
  · refine hdb.frame (exec_progress policy hdb.base a).invariant (exec_frame policy hdb.base a ?_)
    intro clock now heq
    exact ha ⟨clock, now, heq⟩

theorem step_new (policy : Policy) (db : Db) (a : Label) (db' : Db)
    (hdb : CutoverInvariant db ∧ db.ownership = .new) (h : step policy db a = some db') :
    CutoverInvariant db' ∧ db'.ownership = .new := by
  refine ⟨step_cutoverInvariant policy db a db' hdb.1 h, ?_⟩
  cases h
  by_cases ha : ∃ clock now, a = .cutover clock now
  · obtain ⟨clock, now, rfl⟩ := ha
    exact (congrArg Db.ownership (cutover_of_new hdb.2 clock now)).trans hdb.2
  · have hframe := exec_frame policy hdb.1.base a fun clock now heq => ha ⟨clock, now, heq⟩
    exact hframe.ownership.trans hdb.2

/-- The legacy path may claim the message. -/
def LegacyDispatchable (db : Db) (id : String) : Prop :=
  ∃ limit locked now, id ∈ legacyDueIds db limit locked now

/-- The event path may claim a row of the message. -/
def EventDispatchable (db : Db) (id : String) : Prop :=
  ∃ input key d, key ∈ dueKeys db input ∧ db.deliveries.get? key = some d ∧ d.legacyId = some id

theorem LegacyDispatchable.ownership (h : LegacyDispatchable db id) : db.ownership = .legacy := by
  obtain ⟨limit, locked, now, hmem⟩ := h
  obtain ⟨p, hp, -⟩ := List.mem_map.mp (List.mem_of_mem_take hmem)
  have hdue := (List.mem_filter.mp ((List.mem_insertionSort _).mp hp)).2
  simp only [isLegacyDue, Bool.and_eq_true, decide_eq_true_eq] at hdue
  exact hdue.1.1.1.2

theorem EventDispatchable.ownership (h : EventDispatchable db id) : db.ownership = .new := by
  obtain ⟨input, key, d, hdue, hd, hlegacy⟩ := h
  obtain ⟨d', e, hd', -, howner, -, -⟩ := mem_dueKeys hdue
  cases hd.symm.trans hd'
  rcases howner with hnone | hnew
  · rw [hnone] at hlegacy
    cases hlegacy
  · exact hnew

/-- The transaction records a dispatch failure or an `ERROR` acknowledgement of the message. -/
def recordsFailure (id : String) (key : DeliveryKey) (db : Db) : Label → Bool
  | .recordDispatchFailure failed _ _ _ => failed = id
  | .ack input _ => input.status = .error && (ackTargets db input).map Prod.fst = [id]
  | .ackEvent tenantId eventId idempotencyKey status hmacVerified _ =>
    status = .error && hmacVerified && tenantId = key.1 &&
      findAckEvent db tenantId eventId idempotencyKey = some key.2
  | _ => false

/-- The row of the message waits for an outcome, or has reached its end. -/
def Unresolved (db : Db) (id : String) (key : DeliveryKey) : Prop :=
  ∃ d, db.deliveries.get? key = some d ∧ d.legacyId = some id ∧
    (d.status = .sentUnresolved ∨ d.status.isTerminal = true)

theorem Unresolved.not_claimed (policy : Policy) (h : Unresolved db id key) (input : ClaimInput)
    (ordinal : Nat) :
    (key, ordinal) ∉ (claimEvents policy db input).2 := by
  intro hmem
  obtain ⟨key', hdue, hrow⟩ := List.mem_filterMap.mp hmem
  obtain ⟨d', -, heq⟩ := Option.map_eq_some_iff.mp hrow
  cases heq
  obtain ⟨d, hd, -, hstatus⟩ := h
  obtain ⟨d₁, e, hd₁, -, -, hisDue, -⟩ := mem_dueKeys hdue
  cases hd.symm.trans hd₁
  rcases hstatus with hunresolved | hterm
  · simp [isDue, hunresolved] at hisDue
  · rw [not_terminal_of_isDue hisDue] at hterm
    cases hterm

theorem get?_updateDelivery (hd : db.deliveries.get? k = some d) (key : DeliveryKey)
    (guard : Delivery → Bool) (change : Delivery → Delivery) :
    (updateDelivery db key guard change).deliveries.get? k =
      some (if k = key ∧ guard d = true then change d else d) := by
  dsimp only [updateDelivery]
  rw [get?_mapValues, hd, Option.map_some]

/-- The row of the message waits for an outcome. -/
def Waits (db : Db) (id : String) (key : DeliveryKey) (d : Delivery) : Prop :=
  db.deliveries.get? key = some d ∧ d.legacyId = some id ∧ d.status = .sentUnresolved

theorem Waits.unresolved (h : Waits db id k d) : Unresolved db id k :=
  ⟨d, h.1, h.2.1, .inl h.2.2⟩

theorem Waits.of_same (h : Waits db id k d) (hsame : db'.deliveries = db.deliveries) :
    Unresolved db' id k :=
  ⟨d, by rw [hsame, h.1], h.2.1, .inl h.2.2⟩

theorem Waits.update (h : Waits db id k d) (key : DeliveryKey) (guard : Delivery → Bool)
    (change : Delivery → Delivery)
    (hdb' : db'.deliveries = (updateDelivery db key guard change).deliveries)
    (hsettles : k = key → guard d = true →
      (change d).legacyId = d.legacyId ∧ (change d).status.isTerminal = true) :
    Unresolved db' id k := by
  have hrow := get?_updateDelivery h.1 key guard change
  rw [← hdb'] at hrow
  split_ifs at hrow with happlies
  · obtain ⟨hlink, hterm⟩ := hsettles happlies.1 happlies.2
    exact ⟨change d, hrow, hlink.trans h.2.1, .inr hterm⟩
  · exact ⟨d, hrow, h.2.1, .inl h.2.2⟩

theorem Waits.completion (h : Waits db id k d) {result : AttemptResult}
    {change : Delivery → Delivery}
    (hok : completeAttempt (updateDelivery db key (ownsProjection ordinal) change) role key ordinal
      result error now = .ok db') : Unresolved db' id k := by
  refine h.update key (ownsProjection ordinal) change (completeAttempt_ok hok).2.2.2 ?_
  intro _ hguard
  obtain ⟨hsent, -⟩ := live_of_ownsProjection hguard
  rw [h.2.2] at hsent
  cases hsent

section

variable (policy : Policy) (h : Waits db id k d) (role : CompletionRole) (key : DeliveryKey)
  (ordinal : Nat)
include h

theorem Waits.completeSent (now : Int) :
    Unresolved (completeSent policy db role key ordinal now).1 id k := by
  unfold OutboxTables.completeSent
  dsimp only
  split
  · exact h.unresolved
  · rename_i db' hok
    exact h.completion hok

theorem Waits.completeError (message : String) (now : Int) :
    Unresolved (completeError policy db role key ordinal message now).1 id k := by
  unfold OutboxTables.completeError
  dsimp only
  split
  · exact h.unresolved
  · rename_i db' hok
    exact h.completion hok

end

theorem Waits.claim (policy : Policy) (h : Waits db id k d) (input : ClaimInput) :
    Unresolved (claimEvents policy db input).1 id k := by
  refine ⟨d, ?_, h.2.1, .inl h.2.2⟩
  dsimp only [claimEvents]
  rw [get?_mapValues, h.1, Option.map_some, if_neg]
  intro hdue
  obtain ⟨d', e, hd', -, -, hisDue, -⟩ := mem_dueKeys (List.contains_iff_mem.mp hdue)
  cases h.1.symm.trans hd'
  simp [isDue, h.2.2] at hisDue

theorem Waits.acknowledge (h : Waits db id k d) {status : AckStatus} {next : Option Int}
    (hdb' : db'.deliveries = (acknowledge db key status next now).deliveries)
    (hstatus : k = key → status = .acked) : Unresolved db' id k := by
  refine h.update key _ _ hdb' ?_
  intro hkey _
  rw [hstatus hkey]
  exact ⟨rfl, rfl⟩

theorem Waits.ackEvent (policy : Policy) (h : Waits db id k d) (tenantId : String)
    (eventId : Option Nat) (idempotencyKey : Option String) (status : AckStatus)
    (hmacVerified : Bool) (now : Int)
    (ha : recordsFailure id k db
      (.ackEvent tenantId eventId idempotencyKey status hmacVerified now) = false) :
    Unresolved (ackEvent policy db tenantId eventId idempotencyKey status hmacVerified now).1 id
      k := by
  unfold OutboxTables.ackEvent
  split
  · exact h.unresolved
  · rename_i eventId' hfind
    split
    · exact h.unresolved
    · rename_i hverified
      split
      · exact h.unresolved
      · refine h.acknowledge rfl ?_
        rintro rfl
        cases status with
        | acked => rfl
        | error =>
          have hmac : hmacVerified = true := by simpa using hverified
          simp [recordsFailure, hfind, hmac] at ha

theorem Waits.retryEvent (policy : Policy) (h : Waits db id k d) (key : DeliveryKey)
    (immediate : Bool) (now : Int) :
    Unresolved (retryEvent policy db key immediate now).1 id k := by
  unfold OutboxTables.retryEvent
  split
  · exact h.unresolved
  · split
    · exact h.unresolved
    · refine h.update key _ _ rfl ?_
      intro _ hguard
      rw [h.2.2] at hguard
      cases hguard

theorem Waits.retireEvent (h : Waits db id k d) (key : DeliveryKey) (input : RetirementInput)
    (actorId : String) (now : Int) : Unresolved (retireEvent db key input actorId now).1 id k := by
  unfold OutboxTables.retireEvent
  split
  · exact h.unresolved
  · split
    · exact h.unresolved
    · split
      · split
        · exact h.unresolved
        · split <;> exact h.unresolved
      · split
        · exact h.unresolved
        · split
          · exact h.unresolved
          · split
            · exact h.unresolved
            · dsimp only
              refine h.update key (fun _ => true) (fun delivery => { delivery with
                status := .retired, leaseUntil := none, nextAttemptAt := none, updatedAt := now })
                rfl ?_
              intro _ _
              exact ⟨rfl, rfl⟩

theorem enqueue_deliveries (db : Db) (tenantId : String) (envelope : Envelope) (uuid : String)
    (now : Int) : (enqueue db tenantId envelope uuid now).1.deliveries = db.deliveries := by
  unfold enqueue
  dsimp only
  split
  · rfl
  · split
    · split <;> rfl
    · split <;> rfl

theorem retry_deliveries (policy : Policy) (db : Db) (id : String) (immediate : Bool) (now : Int) :
    (retry policy db id immediate now).1.deliveries = db.deliveries := by
  unfold retry
  split
  · rfl
  · split <;> rfl

theorem CutoverInvariant.tied (hdb : CutoverInvariant db) (hnew : db.ownership = .new)
    {other : String} {eventId : Nat} (hm : db.messages.get? other = some m)
    (hevent : m.migratedEventId = some eventId)
    (hd : db.deliveries.get? (m.tenantId, eventId) = some d) (hlegacy : d.legacyId = some id) :
    other = id := by
  obtain ⟨eventId', _, _, d', hevent', -, -, -, -, -, hd', hlegacy'⟩ := hdb.migrated hnew other m hm
  cases hevent.symm.trans hevent'
  cases hd.symm.trans hd'
  exact Option.some.inj (hlegacy'.symm.trans hlegacy)

section

variable (policy : Policy) (hdb : CutoverInvariant db) (hnew : db.ownership = .new)
include hdb hnew

theorem Waits.recordDispatchFailure (h : Waits db id k d) {failed : String} (hne : failed ≠ id)
    (attempts : Nat) (text : String) (now : Int) :
    Unresolved (recordDispatchFailure policy db failed attempts text now).1 id k := by
  unfold OutboxTables.recordDispatchFailure
  dsimp only
  split
  · exact h.unresolved
  · rename_i message hm
    have hreroute : ∀ db₁ : Db, db₁.deliveries = db.deliveries →
        Unresolved (rerouteFailure db₁ failed message attempts text
          (policy.nextAttemptAt attempts now) now) id k := by
      intro db₁ hsame
      unfold rerouteFailure
      split
      · exact h.of_same hsame
      · rename_i eventId hevent
        refine h.update (message.tenantId, eventId)
          (fun delivery => delivery.status = .sentUnresolved)
          (fun delivery => { delivery with
            status := .error
            nextAttemptAt := some (policy.nextAttemptAt attempts now)
            lastError := some text
            updatedAt := now }) ?_ ?_
        · dsimp only [updateDelivery]
          rw [hsame]
        · rintro rfl _
          exact absurd (hdb.tied hnew hm hevent h.1 h.2.1) hne
    split
    · exact hreroute db rfl
    · exact hreroute _ rfl

theorem Waits.ack (h : Waits db id k d) (input : AckInput) (now : Int)
    (ha : recordsFailure id k db (.ack input now) = false) :
    Unresolved (OutboxTables.ack policy db input now).1 id k := by
  unfold OutboxTables.ack
  split
  · exact h.unresolved
  · rename_i target message htarget
    have hm := ackTargets_singleton htarget
    dsimp only
    unfold rerouteAck
    split
    · exact h.of_same rfl
    · rename_i eventId hevent
      refine h.acknowledge rfl ?_
      rintro rfl
      cases hstatus : input.status with
      | acked => rfl
      | error =>
        have hid := hdb.tied hnew hm hevent h.1 h.2.1
        simp [recordsFailure, hstatus, htarget, hid] at ha
  · exact h.unresolved

theorem exec_unresolved (h : Unresolved db id k) (a : Label) (ha : recordsFailure id k db a = false) :
    Unresolved (exec policy db a) id k := by
  obtain ⟨d, hd, hlegacy, hwaits | hterm⟩ := h
  · have hd : Waits db id k d := ⟨hd, hlegacy, hwaits⟩
    cases a with
    | append tenantId reading now events commits =>
      have happend := append_appends policy hdb.base tenantId reading now events commits
      exact ⟨d, happend.kept k d hd.1, hlegacy, .inl hwaits⟩
    | claim input => exact hd.claim policy input
    | sent role key ordinal now => exact hd.completeSent policy role key ordinal now
    | failed role key ordinal message now =>
      exact hd.completeError policy role key ordinal message now
    | ackEvent tenantId eventId idempotencyKey status hmacVerified now =>
      exact hd.ackEvent policy tenantId eventId idempotencyKey status hmacVerified now ha
    | retryEvent key immediate now => exact hd.retryEvent policy key immediate now
    | retireEvent key input actorId now => exact hd.retireEvent key input actorId now
    | enqueue tenantId envelope uuid now =>
      exact hd.of_same (enqueue_deliveries db tenantId envelope uuid now)
    | claimDue limit locked now => exact hd.of_same rfl
    | recordDispatchFailure failed attempts text now =>
      exact hd.recordDispatchFailure policy hdb hnew (of_decide_eq_false ha) attempts text now
    | retry id' immediate now => exact hd.of_same (retry_deliveries policy db id' immediate now)
    | ack input now => exact hd.ack policy hdb hnew input now ha
    | cutover clock now =>
      exact hd.of_same (congrArg Db.deliveries (cutover_of_new hnew clock now))
  · obtain ⟨d', hd', hlink, -, hfrozen⟩ := (exec_progress policy hdb.base a).evolves k d hd
    exact ⟨d', hd', hlink.trans hlegacy, .inr (by rw [hfrozen hterm]; exact hterm)⟩

end

def AfterCutover (id : String) (key : DeliveryKey) (db : Db) : Prop :=
  (CutoverInvariant db ∧ db.ownership = .new) ∧ Unresolved db id key

theorem step_afterCutover (policy : Policy) (id : String) (key : DeliveryKey) (db : Db) (a : Label)
    (db' : Db) (hdb : AfterCutover id key db) (ha : recordsFailure id key db a = false)
    (h : step policy db a = some db') : AfterCutover id key db' := by
  refine ⟨step_new policy db a db' hdb.1 h, ?_⟩
  cases h
  exact exec_unresolved policy hdb.1.1 hdb.1.2 hdb.2 a ha

/-- Every message is tied to one event and to one delivery row, and no two to the same. -/
def MigratedOnce (db : Db) : Prop :=
  ∀ id m, db.messages.get? id = some m → Migrated db id m ∧
    (∀ key d, db.deliveries.get? key = some d → d.legacyId = some id →
      key.1 = m.tenantId ∧ m.migratedEventId = some key.2) ∧
    ∀ other m', db.messages.get? other = some m' → m'.migratedEventId = m.migratedEventId →
      other = id

theorem CutoverInvariant.key_unique (hdb : CutoverInvariant db) {key' : DeliveryKey} {d' : Delivery}
    (hd : db.deliveries.get? key = some d) (hlegacy : d.legacyId = some id)
    (hd' : db.deliveries.get? key' = some d') (hlegacy' : d'.legacyId = some id) : key = key' := by
  obtain ⟨_, hmap⟩ := hdb.linked key d id hd hlegacy
  obtain ⟨_, hmap'⟩ := hdb.linked key' d' id hd' hlegacy'
  have heq := Option.some.inj (hmap.symm.trans hmap')
  rw [LegacyMapping.mk.injEq] at heq
  exact Prod.ext heq.1 heq.2.1

theorem CutoverInvariant.migratedOnce (hdb : CutoverInvariant db) (hnew : db.ownership = .new) :
    MigratedOnce db := by
  intro id m hm
  have hmigrated := hdb.migrated hnew id m hm
  refine ⟨hmigrated, ?_, ?_⟩
  · intro key d hd hlegacy
    obtain ⟨eventId, _, _, d', hevent, -, -, -, -, -, hd', hlegacy'⟩ := hmigrated
    cases hdb.key_unique hd hlegacy hd' hlegacy'
    exact ⟨rfl, hevent⟩
  · intro other m' hm' hsame
    obtain ⟨eventId, _, e, d, hevent, -, he, htenant, -, -, hd, hlegacy⟩ := hmigrated
    obtain ⟨eventId', _, e', _, hevent', -, he', htenant', -⟩ := hdb.migrated hnew other m' hm'
    cases (hevent'.symm.trans hsame).trans hevent
    cases he.symm.trans he'
    refine hdb.tied hnew hm' hevent' ?_ hlegacy
    rw [← htenant', htenant]
    exact hd

theorem cutover_ok {s t : Db} {result : Nat × Nat} (hs : CutoverInvariant s)
    (h : cutoverLegacyMessages s clock now = (t, .ok result)) :
    (CutoverInvariant t ∧ t.ownership = .new) ∧
      (s.ownership = .legacy → ∀ id m, s.messages.get? id = some m → Carried t now id m) ∧
      (s.ownership = .new → t = s) := by
  have hinv := cutover_invariant hs clock now
  rw [h] at hinv
  cases howner : s.ownership with
  | new =>
    have hsame : t = s := (congrArg Prod.fst h).symm.trans (cutover_of_new howner clock now)
    refine ⟨⟨hinv, by rw [hsame, howner]⟩, ?_, fun _ => hsame⟩
    intro hlegacy
    cases hlegacy
  | legacy =>
    rcases cutover_cases hs howner clock now with ⟨reached, e, hcut⟩ | ⟨reached, _, hloop, hcut⟩
    · cases h.symm.trans hcut
    · cases h.symm.trans hcut
      refine ⟨⟨hinv, rfl⟩, ?_, ?_⟩
      · intro _ id m hm
        rcases hloop.carried id m hm with ⟨_, hmem⟩ | hcarried
        · cases hmem
        · exact hcarried
      · intro hnew
        cases hnew

/-- No message is dispatchable by both paths. After a cutover that commits every message is tied to
exactly one event, for ever, and a further cutover changes nothing. The row of a message that was
`SENT` before is not claimed by the event path, unless a dispatch failure or an `ERROR`
acknowledgement of it was recorded on the way. -/
theorem cutover_safe (policy : Policy) (before : List Label) (s : Db)
    (hs : run (step policy) Db.empty before = some s) :
    (∀ id, ¬(LegacyDispatchable s id ∧ EventDispatchable s id)) ∧
    (s.ownership = .legacy → ∀ id m, s.messages.get? id = some m → m.migratedEventId = none) ∧
    ∀ clock now t result, cutoverLegacyMessages s clock now = (t, .ok result) →
      (∀ id m, s.messages.get? id = some m → ∃ m', t.messages.get? id = some m') ∧
      (∀ after u, run (step policy) t after = some u →
        MigratedOnce u ∧ ∀ clock' now', (cutoverLegacyMessages u clock' now').1 = u) ∧
      (s.ownership = .legacy → ∀ id m, s.messages.get? id = some m → m.status = .sent →
        ∃ eventId, (∃ d, t.deliveries.get? (m.tenantId, eventId) = some d ∧ d.legacyId = some id) ∧
          ∀ after u, run (step policy) t after = some u →
            RunMeets (step policy)
              (fun db a => recordsFailure id (m.tenantId, eventId) db a = false) t after →
            ∀ key d, u.deliveries.get? key = some d → d.legacyId = some id →
              ∀ input ordinal, (key, ordinal) ∉ (claimEvents policy u input).2) := by
  have hinv : CutoverInvariant s :=
    run_invariant (step_cutoverInvariant policy) cutoverInvariant_empty hs
  refine ⟨?_, fun hlegacy => (hinv.unmigrated hlegacy).1, ?_⟩
  · rintro id ⟨hlegacy, hevent⟩
    cases hlegacy.ownership.symm.trans hevent.ownership
  · intro clock now t result hcut
    obtain ⟨ht, hcarried, hsame⟩ := cutover_ok hinv hcut
    refine ⟨?_, ?_, ?_⟩
    · intro id m hm
      cases howner : s.ownership with
      | new => exact ⟨m, by rw [hsame howner, hm]⟩
      | legacy =>
        obtain ⟨_, _, hm', -⟩ := hcarried howner id m hm
        exact ⟨_, hm'⟩
    · intro after u hu
      have hu' := run_invariant (step_new policy) ht hu
      exact ⟨hu'.1.migratedOnce hu'.2, fun clock' now' => cutover_of_new hu'.2 clock' now'⟩
    · intro hlegacy id m hm hsent
      obtain ⟨eventId, _, -, hrow⟩ := hcarried hlegacy id m hm
      refine ⟨eventId, ⟨_, hrow, rfl⟩, ?_⟩
      intro after u hu hquiet key d hd hid input ordinal
      have hwaits : Unresolved t id (m.tenantId, eventId) := by
        refine ⟨_, hrow, rfl, .inl ?_⟩
        rw [migratedDelivery, hsent]
        rfl
      have hafter : AfterCutover id (m.tenantId, eventId) u :=
        run_invariant_of_meets (step_afterCutover policy id (m.tenantId, eventId)) ⟨ht, hwaits⟩
          hquiet hu
      obtain ⟨d', hd', hlegacy', -⟩ := hafter.2
      rw [hafter.1.1.key_unique hd hid hd' hlegacy']
      exact hafter.2.not_claimed policy input ordinal

def sentMessageRun : List Label :=
  [.enqueue "acme" ⟨"order", "1", "{}", none, none⟩ "m1" 1000, .claimDue 10 [] 2000]

theorem cutover_safe_sentMessageRun :
    ∃ s t, run (step samplePolicy) Db.empty sentMessageRun = some s ∧
      s.ownership = .legacy ∧ (s.messages.get? "m1").map Message.status = some .sent ∧
      cutoverLegacyMessages s (fun _ => 3000) 3000 = (t, .ok (1, 1)) ∧
      MigratedOnce t ∧ (cutoverLegacyMessages t (fun _ => 4000) 4000).1 = t ∧
      ∀ key d, t.deliveries.get? key = some d → d.legacyId = some "m1" →
        ∀ ordinal, (key, ordinal) ∉ (claimEvents samplePolicy t (sampleSweep 5000)).2 := by
  have hruns : (run (step samplePolicy) Db.empty sentMessageRun).map (fun s =>
      (s.ownership, (s.messages.get? "m1").map Message.status,
        (cutoverLegacyMessages s (fun _ => 3000) 3000).2.toOption)) =
      some (.legacy, some .sent, some (1, 1)) := by
    decide
  obtain ⟨s, hs, hfields⟩ := Option.map_eq_some_iff.mp hruns
  simp only [Prod.mk.injEq] at hfields
  obtain ⟨howner, hstatus, hresult⟩ := hfields
  obtain ⟨m, hm, hsent⟩ := Option.map_eq_some_iff.mp hstatus
  rcases hcut : cutoverLegacyMessages s (fun _ => 3000) 3000 with ⟨t, outcome⟩
  rw [hcut] at hresult
  cases outcome with
  | error e => cases hresult
  | ok result =>
    cases hresult
    obtain ⟨-, -, hsafe⟩ := cutover_safe samplePolicy sentMessageRun s hs
    obtain ⟨-, hafter, hquiet⟩ := hsafe _ _ t _ hcut
    obtain ⟨hmigrated, hagain⟩ := hafter [] t rfl
    obtain ⟨eventId, -, hclaims⟩ := hquiet howner "m1" m hm hsent
    exact ⟨s, t, hs, howner, hstatus, hcut, hmigrated, hagain _ _, fun key d hd hid ordinal =>
      hclaims [] t rfl trivial key d hd hid _ ordinal⟩

end Stynx.OutboxCutover
