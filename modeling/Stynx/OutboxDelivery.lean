import Stynx.TransitionRuns
import Stynx.OutboxTables

/-!
# Order and monotonicity of event deliveries

The transactions of the outbox, the legacy ones and the cutover as one system, in any order and
with any clock readings. A transaction adds one event at the end of the log of its tenant, or
rewrites delivery rows in place under a guard: so a later event never comes before one in flight,
and a terminal row is never rewritten.

A completion may arrive at any time, any number of times, with any ordinal.
-/

namespace Stynx.OutboxDelivery

open OutboxTables TransitionRuns OrderedMap

/-- One transaction of the outbox. -/
inductive Label where
  | append (tenantId : String) (reading : Nat) (now : Int) (events : List AppendEvent)
      (commits : Bool)
  | claim (input : ClaimInput)
  | sent (role : CompletionRole) (key : DeliveryKey) (ordinal : Nat) (now : Int)
  | failed (role : CompletionRole) (key : DeliveryKey) (ordinal : Nat) (message : String)
      (now : Int)
  | ackEvent (tenantId : String) (eventId : Option Nat) (idempotencyKey : Option String)
      (status : AckStatus) (hmacVerified : Bool) (now : Int)
  | retryEvent (key : DeliveryKey) (immediate : Bool) (now : Int)
  | retireEvent (key : DeliveryKey) (input : RetirementInput) (actorId : String) (now : Int)
  | enqueue (tenantId : String) (envelope : Envelope) (uuid : String) (now : Int)
  | claimDue (limit : Nat) (locked : List String) (now : Int)
  | recordDispatchFailure (id : String) (attempts : Nat) (text : String) (now : Int)
  | retry (id : String) (immediate : Bool) (now : Int)
  | ack (input : AckInput) (now : Int)
  | cutover (clock : Nat → Nat) (now : Int)

/-- The tables after a transaction, whether it commits or throws. -/
def exec (policy : Policy) (db : Db) : Label → Db
  | .append tenantId reading now events commits =>
    (appendManyInTransaction policy db tenantId reading now events commits).1
  | .claim input => (claimEvents policy db input).1
  | .sent role key ordinal now => (completeSent policy db role key ordinal now).1
  | .failed role key ordinal message now =>
    (completeError policy db role key ordinal message now).1
  | .ackEvent tenantId eventId idempotencyKey status hmacVerified now =>
    (OutboxTables.ackEvent policy db tenantId eventId idempotencyKey status hmacVerified now).1
  | .retryEvent key immediate now => (OutboxTables.retryEvent policy db key immediate now).1
  | .retireEvent key input actorId now => (OutboxTables.retireEvent db key input actorId now).1
  | .enqueue tenantId envelope uuid now =>
    (OutboxTables.enqueue db tenantId envelope uuid now).1
  | .claimDue limit locked now => (OutboxTables.claimDue db limit locked now).1
  | .recordDispatchFailure id attempts text now =>
    (OutboxTables.recordDispatchFailure policy db id attempts text now).1
  | .retry id immediate now => (OutboxTables.retry policy db id immediate now).1
  | .ack input now => (OutboxTables.ack policy db input now).1
  | .cutover clock now => (cutoverLegacyMessages db clock now).1

/-- The outbox system; every transaction may be tried in every state. -/
def step (policy : Policy) (db : Db) (a : Label) : Option Db := some (exec policy db a)

def SameAggregate (e e' : Event) : Prop :=
  e.tenantId = e'.tenantId ∧ e.entity = e'.entity ∧ e.entityId = e'.entityId

def EarlierTerminal (db : Db) (id : Nat) (event : Event) : Prop :=
  ∀ key d e, db.deliveries.get? key = some d → db.events.get? key.2 = some e →
    SameAggregate e event → precedes key.2 e id event = true → d.status.isTerminal = true

/-- No delivery is in flight while an earlier one of its aggregate is outstanding. -/
def InFlightOrdered (db : Db) : Prop :=
  ∀ key d e, db.deliveries.get? key = some d → db.events.get? key.2 = some e →
    d.status = .sent → EarlierTerminal db key.2 e

/-- What holds of the event tables between transactions. -/
structure Invariant (db : Db) : Prop where
  /-- Ids were drawn from the sequence. -/
  drawn : ∀ id e, db.events.get? id = some e →
    ∃ order, order ≤ db.eventOrder ∧ order < 2 ^ 63 ∧ id = eventUuid e.createdAt order
  /-- No event is ahead of the clock of its tenant. -/
  clocked : ∀ id e, db.events.get? id = some e →
    e.createdAt ≤ (db.tenantClock.get? e.tenantId).getD 0
  /-- A delivery belongs to a stored event of its tenant. -/
  joined : ∀ key d, db.deliveries.get? key = some d →
    ∃ e, db.events.get? key.2 = some e ∧ e.tenantId = key.1
  inFlight : InFlightOrdered db

theorem invariant_empty : Invariant Db.empty where
  drawn := by simp [Db.empty]
  clocked := by simp [Db.empty]
  joined := by simp [Db.empty]
  inFlight := by simp [InFlightOrdered, Db.empty]

variable {ms order ordinal : Nat} {db db' : Db} {key : DeliveryKey} {d : Delivery} {event : Event}
  {tenantId : String} {now : Int}

theorem eventUuid_lt {order' : Nat} (h : order < order') (hbound : order' < 2 ^ 63) :
    eventUuid ms order < eventUuid ms order' := by
  have hfield : ∀ n, n < 2 ^ 63 → hexField (n / 2 ^ 62) 3 = n / 2 ^ 62 := by
    intro n hn
    rw [hexField, if_pos (by omega)]
  rw [eventUuid, eventUuid, hfield order (by omega), hfield order' hbound]
  omega

theorem earlierSettled_iff (hdb : Invariant db) (id : Nat) (event : Event) :
    earlierSettled db id event = true ↔ EarlierTerminal db id event := by
  rw [earlierSettled, List.all_eq_true]
  constructor
  · intro h key d e hd he hsame hprec
    obtain ⟨e', he', htenant⟩ := hdb.joined key d hd
    cases he.symm.trans he'
    have hrow := h (key, d) (mem_entries_iff.mpr hd)
    obtain ⟨hs₁, hs₂, hs₃⟩ := hsame
    simp only [he, hs₂, hs₃, hprec, decide_true, Bool.and_true, Bool.or_eq_true,
      Bool.not_eq_true', Bool.and_eq_false_iff, decide_eq_false_iff_not] at hrow
    rcases hrow with (hne | hne) | hterm
    · exact absurd htenant hne
    · exact absurd hs₁ hne
    · exact hterm
  · rintro h ⟨key, d⟩ hp
    have hd := mem_entries_iff.mp hp
    cases he : db.events.get? key.2 with
    | none => simp
    | some e =>
      simp only [Bool.or_eq_true, Bool.not_eq_true', Bool.and_eq_false_iff, decide_eq_false_iff_not]
      by_contra hcon
      push Not at hcon
      obtain ⟨⟨⟨⟨⟨-, h₁⟩, h₂⟩, h₃⟩, h₄⟩, hterm⟩ := hcon
      exact hterm (h key d e hd he ⟨h₁, h₂, h₃⟩ (by simpa using h₄))

/-- What a guarded update may do to one delivery row. -/
structure RowStep (db : Db) (key : DeliveryKey) (d d' : Delivery) : Prop where
  /-- The link to a legacy message stays. -/
  legacyId : d'.legacyId = d.legacyId
  /-- Attempts never decrease. -/
  attempts : d.attempts ≤ d'.attempts
  /-- A terminal row is not touched. -/
  terminal : d.status.isTerminal = true → d' = d
  /-- A row goes in flight only in order. -/
  sent : d'.status = .sent → d.status = .sent ∨
    ∀ e, db.events.get? key.2 = some e → earlierSettled db key.2 e = true

theorem RowStep.refl (db : Db) (key : DeliveryKey) (d : Delivery) : RowStep db key d d :=
  ⟨rfl, le_refl _, fun _ => rfl, .inl⟩

theorem RowStep.of_unclaimed {d' : Delivery} (hlegacy : d'.legacyId = d.legacyId)
    (hattempts : d'.attempts = d.attempts) (hlive : d.status.isTerminal = false)
    (hsent : d'.status = .sent → d.status = .sent) :
    RowStep db key d d' :=
  ⟨hlegacy, le_of_eq hattempts.symm, fun h => absurd (h.symm.trans hlive) (by decide),
    fun h => .inl (hsent h)⟩

/-- A transaction that only rewrites delivery rows in place. -/
structure Updates (db db' : Db) : Prop where
  /-- The event log stays. -/
  events : db'.events = db.events
  tenantClock : db'.tenantClock = db.tenantClock
  /-- The sequence does not go back. -/
  eventOrder : db.eventOrder ≤ db'.eventOrder
  /-- Every row takes a row step. -/
  row : ∀ key d, db.deliveries.get? key = some d →
    ∃ d', db'.deliveries.get? key = some d' ∧ RowStep db key d d'
  /-- No row appears. -/
  origin : ∀ key d', db'.deliveries.get? key = some d' → ∃ d, db.deliveries.get? key = some d

theorem Updates.of_same (he : db'.events = db.events) (hc : db'.tenantClock = db.tenantClock)
    (ho : db.eventOrder ≤ db'.eventOrder) (hd : db'.deliveries = db.deliveries) :
    Updates db db' where
  events := he
  tenantClock := hc
  eventOrder := ho
  row key d h := ⟨d, by rw [hd, h], RowStep.refl db key d⟩
  origin key d h := ⟨d, by rw [← hd, h]⟩

theorem Updates.refl (db : Db) : Updates db db := .of_same rfl rfl (le_refl _) rfl

theorem Updates.of_mapValues (f : DeliveryKey → Delivery → Delivery) (he : db'.events = db.events)
    (hc : db'.tenantClock = db.tenantClock) (ho : db'.eventOrder = db.eventOrder)
    (hd : db'.deliveries = db.deliveries.mapValues f)
    (hrow : ∀ key d, db.deliveries.get? key = some d → RowStep db key d (f key d)) :
    Updates db db' where
  events := he
  tenantClock := hc
  eventOrder := le_of_eq ho.symm
  row key d h := ⟨f key d, by rw [hd, get?_mapValues, h, Option.map_some], hrow key d h⟩
  origin key d' h := by
    rw [hd, get?_mapValues, Option.map_eq_some_iff] at h
    obtain ⟨d, hd', -⟩ := h
    exact ⟨d, hd'⟩

theorem Updates.of_updateDelivery (key : DeliveryKey) (guard : Delivery → Bool)
    (change : Delivery → Delivery) (he : db'.events = db.events)
    (hc : db'.tenantClock = db.tenantClock) (ho : db'.eventOrder = db.eventOrder)
    (hd : db'.deliveries = (updateDelivery db key guard change).deliveries)
    (hrow : ∀ d, db.deliveries.get? key = some d → guard d = true → RowStep db key d (change d)) :
    Updates db db' := by
  simp only [updateDelivery] at hd
  refine .of_mapValues _ he hc ho hd ?_
  intro k d h
  split_ifs with hguard
  · rw [hguard.1] at h ⊢
    exact hrow d h hguard.2
  · exact RowStep.refl db k d

theorem Invariant.update (hdb : Invariant db) (h : Updates db db') : Invariant db' where
  drawn id e he := by
    rw [h.events] at he
    obtain ⟨order, hle, hbound, hid⟩ := hdb.drawn id e he
    exact ⟨order, le_trans hle h.eventOrder, hbound, hid⟩
  clocked id e he := by
    rw [h.events] at he
    rw [h.tenantClock]
    exact hdb.clocked id e he
  joined key d' hd' := by
    obtain ⟨d, hd⟩ := h.origin key d' hd'
    rw [h.events]
    exact hdb.joined key d hd
  inFlight key d' e hd' he hsent := by
    obtain ⟨d, hd⟩ := h.origin key d' hd'
    obtain ⟨d₁, hd₁, hrow⟩ := h.row key d hd
    cases hd'.symm.trans hd₁
    rw [h.events] at he
    have hsettled : EarlierTerminal db key.2 e := by
      rcases hrow.sent hsent with hwas | hguard
      · exact hdb.inFlight key d e hd he hwas
      · exact (earlierSettled_iff hdb key.2 e).mp (hguard e he)
    intro key₂ d₂' e₂ hd₂' he₂ hsame hprec
    obtain ⟨d₂, hd₂⟩ := h.origin key₂ d₂' hd₂'
    obtain ⟨d₃, hd₃, hrow₂⟩ := h.row key₂ d₂ hd₂
    cases hd₂'.symm.trans hd₃
    rw [h.events] at he₂
    have hterm := hsettled key₂ d₂ e₂ hd₂ he₂ hsame hprec
    rw [hrow₂.terminal hterm]
    exact hterm

theorem Invariant.advance (hdb : Invariant db) (tenantId : String) (reading : Nat) :
    Invariant { db with tenantClock := advanceClock db.tenantClock tenantId reading } where
  drawn := hdb.drawn
  clocked id e he := by
    have hold := hdb.clocked id e he
    rw [advanceClock, get?_set]
    split_ifs with htenant
    · rw [htenant, Option.getD_some]
      exact le_trans hold (le_max_left _ _)
    · exact hold
  joined := hdb.joined
  inFlight := hdb.inFlight

theorem clockValue_eq (clock : OrderedMap String Nat) (tenantId : String) (reading : Nat) :
    ((advanceClock clock tenantId reading).get? tenantId).getD 0 =
      clockValue clock tenantId reading := by
  rw [advanceClock, get?_set_self, Option.getD_some, clockValue]

/-- A transaction that adds one event at the end of the log, with or without a delivery row. -/
structure Inserts (db db' : Db) (order : Nat) (event : Event) : Prop where
  drawn : db.eventOrder < order ∧ order < 2 ^ 63
  /-- The sequence stands at the order. -/
  eventOrder : db'.eventOrder = order
  createdAt : event.createdAt = (db.tenantClock.get? event.tenantId).getD 0
  tenantClock : db'.tenantClock = db.tenantClock
  /-- The id is new. -/
  fresh : db.events.get? (eventUuid event.createdAt order) = none
  /-- Only the event is added to the log. -/
  events : db'.events = db.events.set (eventUuid event.createdAt order) event
  /-- Delivery rows stay as they are. -/
  kept : ∀ key d, db.deliveries.get? key = some d → db'.deliveries.get? key = some d
  /-- A new delivery row is that of the event, and not in flight. -/
  origin : ∀ key d, db'.deliveries.get? key = some d → db.deliveries.get? key = some d ∨
    key = (event.tenantId, eventUuid event.createdAt order) ∧ d.status ≠ .sent

variable {id : Nat} {e : Event} {mid reached : Db} {input : ClaimInput} {role : CompletionRole}
  {result : AttemptResult} {error : Option String} {change : Delivery → Delivery}

theorem Inserts.last (hdb : Invariant db) (h : Inserts db db' order event)
    (he : db.events.get? id = some e) (htenant : e.tenantId = event.tenantId) :
    precedes (eventUuid event.createdAt order) event id e = false := by
  obtain ⟨order', hle, hbound, hid⟩ := hdb.drawn id e he
  have hclock := hdb.clocked id e he
  rw [htenant, ← h.createdAt] at hclock
  have hlt : e.createdAt = event.createdAt → id < eventUuid event.createdAt order := by
    intro hms
    rw [hid, hms]
    exact eventUuid_lt (lt_of_le_of_lt hle h.drawn.1) h.drawn.2
  simp only [precedes, Bool.or_eq_false_iff, decide_eq_false_iff_not, Bool.and_eq_false_iff]
  refine ⟨by omega, ?_⟩
  by_cases hms : e.createdAt = event.createdAt
  · exact .inr (not_lt.mpr (le_of_lt (hlt hms)))
  · exact .inl fun h => hms h.symm

theorem Invariant.insert (hdb : Invariant db) (h : Inserts db db' order event) : Invariant db' := by
  have hevents : ∀ id e, db'.events.get? id = some e →
      (id = eventUuid event.createdAt order ∧ e = event) ∨ db.events.get? id = some e := by
    intro id e he
    rw [h.events] at he
    rcases get?_set_eq_some.mp he with ⟨rfl, rfl⟩ | ⟨-, h'⟩
    · exact .inl ⟨rfl, rfl⟩
    · exact .inr h'
  have hold : ∀ id e, db.events.get? id = some e → db'.events.get? id = some e := by
    intro id e he
    rw [h.events, get?_set_of_ne, he]
    intro hid
    rw [← hid, h.fresh] at he
    cases he
  -- A row that was there before joins the event it joined before.
  have hjoin : ∀ key d e, db.deliveries.get? key = some d → db'.events.get? key.2 = some e →
      db.events.get? key.2 = some e := by
    intro key d e hd he
    obtain ⟨e', he', -⟩ := hdb.joined key d hd
    cases (hold key.2 e' he').symm.trans he
    exact he'
  exact
    { drawn := by
        intro id e he
        rcases hevents id e he with ⟨rfl, rfl⟩ | h'
        · exact ⟨order, le_of_eq h.eventOrder.symm, h.drawn.2, rfl⟩
        · obtain ⟨order', hle, hbound, hid⟩ := hdb.drawn id e h'
          refine ⟨order', ?_, hbound, hid⟩
          rw [h.eventOrder]
          exact le_of_lt (lt_of_le_of_lt hle h.drawn.1)
      clocked := by
        intro id e he
        rw [h.tenantClock]
        rcases hevents id e he with ⟨rfl, rfl⟩ | h'
        · exact le_of_eq h.createdAt
        · exact hdb.clocked id e h'
      joined := by
        intro key d hd
        rcases h.origin key d hd with h' | ⟨rfl, -⟩
        · obtain ⟨e, he, htenant⟩ := hdb.joined key d h'
          exact ⟨e, hold key.2 e he, htenant⟩
        · exact ⟨event, by rw [h.events, get?_set_self], rfl⟩
      inFlight := by
        intro key d e hd he hsent key₂ d₂ e₂ hd₂ he₂ hsame hprec
        rcases h.origin key d hd with hd' | ⟨-, hne⟩
        · have he' := hjoin key d e hd' he
          rcases h.origin key₂ d₂ hd₂ with hd₂' | ⟨rfl, -⟩
          · exact hdb.inFlight key d e hd' he' hsent key₂ d₂ e₂ hd₂' (hjoin key₂ d₂ e₂ hd₂' he₂)
              hsame hprec
          · have hnew : e₂ = event := by
              rw [h.events, get?_set_self] at he₂
              exact (Option.some.inj he₂).symm
            rw [hnew] at hsame hprec
            rw [h.last hdb he' hsame.1.symm] at hprec
            cases hprec
        · exact absurd hsent hne }

/-- How a delivery row may look after any number of transactions. -/
def Evolves (db db' : Db) : Prop :=
  ∀ key d, db.deliveries.get? key = some d → ∃ d', db'.deliveries.get? key = some d' ∧
    d'.legacyId = d.legacyId ∧ d.attempts ≤ d'.attempts ∧ (d.status.isTerminal = true → d' = d)

theorem Evolves.refl (db : Db) : Evolves db db :=
  fun _ d hd => ⟨d, hd, rfl, le_refl _, fun _ => rfl⟩

theorem Evolves.trans (h : Evolves db mid) (h' : Evolves mid db') : Evolves db db' := by
  intro key d hd
  obtain ⟨d₁, hd₁, hlegacy₁, hattempts₁, hterm₁⟩ := h key d hd
  obtain ⟨d₂, hd₂, hlegacy₂, hattempts₂, hterm₂⟩ := h' key d₁ hd₁
  refine ⟨d₂, hd₂, hlegacy₂.trans hlegacy₁, le_trans hattempts₁ hattempts₂, ?_⟩
  intro hterm
  have hd₁' := hterm₁ hterm
  rw [hd₁'] at hterm₂
  exact hterm₂ hterm

theorem Updates.evolves (h : Updates db db') : Evolves db db' := by
  intro key d hd
  obtain ⟨d', hd', hrow⟩ := h.row key d hd
  exact ⟨d', hd', hrow.legacyId, hrow.attempts, hrow.terminal⟩

theorem Inserts.evolves (h : Inserts db db' order event) : Evolves db db' :=
  fun key d hd => ⟨d, h.kept key d hd, rfl, le_refl _, fun _ => rfl⟩

/-- The result of a transaction or of a part of one. -/
structure Progress (db db' : Db) : Prop where
  invariant : Invariant db'
  evolves : Evolves db db'
  /-- The sequence does not go back. -/
  eventOrder : db.eventOrder ≤ db'.eventOrder

theorem Progress.refl (hdb : Invariant db) : Progress db db :=
  ⟨hdb, Evolves.refl db, le_refl _⟩

theorem Progress.trans (h : Progress db mid) (h' : Progress mid db') : Progress db db' :=
  ⟨h'.invariant, h.evolves.trans h'.evolves, le_trans h.eventOrder h'.eventOrder⟩

theorem Updates.progress (hdb : Invariant db) (h : Updates db db') : Progress db db' :=
  ⟨hdb.update h, h.evolves, h.eventOrder⟩

theorem Inserts.progress (hdb : Invariant db) (h : Inserts db db' order event) : Progress db db' :=
  ⟨hdb.insert h, h.evolves, by rw [h.eventOrder]; exact le_of_lt h.drawn.1⟩

theorem Progress.rollback (hdb : Invariant db) (h : db.eventOrder ≤ reached.eventOrder) :
    Progress db (rollback db reached) :=
  Updates.progress hdb (.of_same rfl rfl h rfl)

theorem nextOrder_ok (h : nextOrder db = .ok order) :
    order = db.eventOrder + 1 ∧ order < 2 ^ 63 := by
  rw [nextOrder] at h
  split_ifs at h with hfull
  cases h
  exact ⟨rfl, by omega⟩

theorem insertEvent_cases (db : Db) (ms order : Nat) (event : Event) :
    (∃ e, insertEvent db ms order event = ({ db with eventOrder := order }, .error e)) ∨
    (insertEvent db ms order event =
        ({ db with
            eventOrder := order
            events := db.events.set (eventUuid ms order) event }, .ok (eventUuid ms order)) ∧
      db.events.get? (eventUuid ms order) = none) := by
  rw [insertEvent]
  dsimp only
  cases hhas : db.events.has (eventUuid ms order) with
  | true => exact .inl ⟨.uniqueViolation, by simp⟩
  | false => exact .inr ⟨by simp, get?_eq_none_of_not_has hhas⟩

theorem Progress.draw (hdb : Invariant db) (horder : nextOrder db = .ok order) :
    Progress db { db with eventOrder := order } := by
  obtain ⟨ho, -⟩ := nextOrder_ok horder
  refine Updates.progress hdb (.of_same rfl rfl ?_ rfl)
  dsimp only
  omega

theorem Invariant.delivery_fresh (hdb : Invariant db) (hnew : db.events.get? id = none)
    (tenantId : String) :
    db.deliveries.get? (tenantId, id) = none := by
  cases hd : db.deliveries.get? (tenantId, id) with
  | none => rfl
  | some d =>
    obtain ⟨e, he, -⟩ := hdb.joined _ d hd
    rw [hnew] at he
    cases he

theorem inserts_with_delivery (hdb : Invariant db) (horder : nextOrder db = .ok order)
    (event : Event) (hms : event.createdAt = (db.tenantClock.get? event.tenantId).getD 0)
    (hnew : db.events.get? (eventUuid event.createdAt order) = none) (ho : db'.eventOrder = order)
    (hc : db'.tenantClock = db.tenantClock)
    (hevents : db'.events = db.events.set (eventUuid event.createdAt order) event) (row : Delivery)
    (hrow : row.status ≠ .sent)
    (hd : db'.deliveries =
      db.deliveries.set (event.tenantId, eventUuid event.createdAt order) row) :
    Inserts db db' order event := by
  obtain ⟨hnext, hbound⟩ := nextOrder_ok horder
  have hfresh := hdb.delivery_fresh hnew event.tenantId
  exact
    { drawn := ⟨by omega, hbound⟩
      eventOrder := ho
      createdAt := hms
      tenantClock := hc
      fresh := hnew
      events := hevents
      kept := by
        intro key d h
        rw [hd, get?_set_of_ne, h]
        rintro rfl
        rw [hfresh] at h
        cases h
      origin := by
        intro key d h
        rw [hd] at h
        rcases get?_set_eq_some.mp h with ⟨rfl, rfl⟩ | ⟨-, h'⟩
        · exact .inr ⟨rfl, hrow⟩
        · exact .inl h' }

theorem inserts_without_delivery (horder : nextOrder db = .ok order) (event : Event)
    (hms : event.createdAt = (db.tenantClock.get? event.tenantId).getD 0)
    (hnew : db.events.get? (eventUuid event.createdAt order) = none) (ho : db'.eventOrder = order)
    (hc : db'.tenantClock = db.tenantClock)
    (hevents : db'.events = db.events.set (eventUuid event.createdAt order) event)
    (hd : db'.deliveries = db.deliveries) : Inserts db db' order event := by
  obtain ⟨hnext, hbound⟩ := nextOrder_ok horder
  exact
    { drawn := ⟨by omega, hbound⟩
      eventOrder := ho
      createdAt := hms
      tenantClock := hc
      fresh := hnew
      events := hevents
      kept := fun key d h => by rw [hd, h]
      origin := fun key d h => .inl (by rw [← hd, h]) }

section

variable (policy : Policy) (hdb : Invariant db) (hms : ms = (db.tenantClock.get? tenantId).getD 0)
  (now : Int) (event : AppendEvent)
include hdb hms

theorem appendOne_cases :
    (∃ order, db.eventOrder ≤ order ∧
        (appendOne policy tenantId ms now db event).1 = { db with eventOrder := order }) ∨
      ∃ order inserted, inserted.tenantId = tenantId ∧
        Inserts db (appendOne policy tenantId ms now db event).1 order inserted := by
  unfold appendOne
  split
  · exact .inl ⟨db.eventOrder, le_refl _, rfl⟩
  · split
    · exact .inl ⟨db.eventOrder, le_refl _, rfl⟩
    case h_2 order horder =>
      have hle : db.eventOrder ≤ order := by
        obtain ⟨hnext, -⟩ := nextOrder_ok horder
        omega
      split
      · dsimp only
        split
        · exact .inl ⟨order, hle, rfl⟩
        · exact .inl ⟨order, hle, rfl⟩
      · rcases insertEvent_cases db ms order ⟨tenantId, event.entity, event.entityId,
            event.idempotencyKey, event.payload, event.metadata, ms⟩ with ⟨e, hins⟩ | ⟨hins, hnew⟩
        · rw [hins]
          exact .inl ⟨order, hle, rfl⟩
        · rw [hins]
          dsimp only
          refine .inr ⟨order, ⟨tenantId, event.entity, event.entityId, event.idempotencyKey,
            event.payload, event.metadata, ms⟩, rfl, ?_⟩
          split
          · have hrow : (newDelivery now).status ≠ .sent := by simp [newDelivery]
            exact inserts_with_delivery hdb horder _ hms hnew rfl rfl rfl (newDelivery now) hrow rfl
          · exact inserts_without_delivery horder _ hms hnew rfl rfl rfl rfl

theorem appendOne_progress :
    Progress db (appendOne policy tenantId ms now db event).1 ∧
      (appendOne policy tenantId ms now db event).1.tenantClock = db.tenantClock := by
  rcases appendOne_cases policy hdb hms now event with ⟨order, hle, hsame⟩ | ⟨order, inserted, -, h⟩
  · rw [hsame]
    exact ⟨Updates.progress hdb (.of_same rfl rfl hle rfl), rfl⟩
  · exact ⟨h.progress hdb, h.tenantClock⟩

end

theorem appendLoop_progress (policy : Policy) (now : Int) (events : List AppendEvent)
    (hdb : Invariant db) (hms : ms = (db.tenantClock.get? tenantId).getD 0) :
    Progress db (appendLoop policy tenantId ms now db events).1 := by
  induction events generalizing db with
  | nil => exact Progress.refl hdb
  | cons event rest ih =>
    obtain ⟨hone, hclock⟩ := appendOne_progress policy hdb hms now event
    rw [appendLoop]
    split
    · rename_i db' e hstep
      rw [hstep] at hone
      exact hone
    · rename_i db' id hstep
      rw [hstep] at hone hclock
      dsimp only at hone hclock
      have hrest := ih hone.invariant (by rw [hclock]; exact hms)
      split
      · rename_i hloop
        rw [hloop] at hrest
        exact hone.trans hrest
      · rename_i hloop
        rw [hloop] at hrest
        exact hone.trans hrest

theorem append_progress (policy : Policy) (hdb : Invariant db) (tenantId : String) (reading : Nat)
    (now : Int) (events : List AppendEvent) (commits : Bool) :
    Progress db (appendManyInTransaction policy db tenantId reading now events commits).1 := by
  unfold appendManyInTransaction
  split
  · exact Progress.refl hdb
  · dsimp only
    have hclocked := hdb.advance tenantId reading
    have hloop := appendLoop_progress policy now events hclocked
      (clockValue_eq db.tenantClock tenantId reading).symm
    have horder : db.eventOrder ≤ (appendLoop policy tenantId
        (clockValue db.tenantClock tenantId reading) now
        { db with tenantClock := advanceClock db.tenantClock tenantId reading } events).1.eventOrder :=
      hloop.eventOrder
    split
    · rename_i reached e hreached
      rw [hreached] at horder
      exact Progress.rollback hdb horder
    · rename_i reached ids hreached
      rw [hreached] at horder hloop
      split
      · exact ⟨hloop.invariant, hloop.evolves, horder⟩
      · exact Progress.rollback hdb horder

theorem mem_dueKeys (h : key ∈ dueKeys db input) :
    ∃ d e, db.deliveries.get? key = some d ∧ db.events.get? key.2 = some e ∧
      (d.legacyId = none ∨ db.ownership = .new) ∧ isDue e d input.now = true ∧
      earlierSettled db key.2 e = true := by
  have hmem := List.mem_of_mem_take h
  rw [List.mem_insertionSort, List.mem_map] at hmem
  obtain ⟨⟨k, d⟩, hp, rfl⟩ := hmem
  obtain ⟨hentry, heligible⟩ := List.mem_filter.mp hp
  dsimp only at heligible ⊢
  rw [isEligible] at heligible
  split at heligible
  · cases heligible
  · rename_i e he
    simp only [Bool.and_eq_true, Bool.or_eq_true, decide_eq_true_eq] at heligible
    exact ⟨d, e, mem_entries_iff.mp hentry, he, heligible.1.1.1.1.2,
      heligible.1.1.1.2, heligible.1.1.2⟩

theorem not_terminal_of_isDue (h : isDue e d now = true) : d.status.isTerminal = false := by
  simp only [isDue, Bool.or_eq_true, Bool.and_eq_true, decide_eq_true_eq] at h
  rcases h with ⟨h | h, -⟩ | ⟨h, -⟩ <;> rw [h] <;> rfl

theorem claimEvents_updates (policy : Policy) (db : Db) (input : ClaimInput) :
    Updates db (claimEvents policy db input).1 := by
  refine .of_mapValues (fun key delivery => if (dueKeys db input).contains key then
    claimDelivery policy input.now delivery else delivery) rfl rfl rfl rfl ?_
  intro key d hd
  split_ifs with hdue
  · obtain ⟨d', e, hd', he, -, hisDue, hsettled⟩ := mem_dueKeys (List.contains_iff_mem.mp hdue)
    cases hd.symm.trans hd'
    have hlive := not_terminal_of_isDue hisDue
    refine ⟨rfl, Nat.le_succ _, fun h => absurd (h.symm.trans hlive) (by decide), fun _ => .inr ?_⟩
    intro e' he'
    cases he.symm.trans he'
    exact hsettled
  · exact RowStep.refl db key d

theorem completeAttempt_ok (h : completeAttempt db role key ordinal result error now = .ok db') :
    db'.events = db.events ∧ db'.tenantClock = db.tenantClock ∧ db'.eventOrder = db.eventOrder ∧
      db'.deliveries = db.deliveries := by
  unfold completeAttempt at h
  split at h
  · cases h
    exact ⟨rfl, rfl, rfl, rfl⟩
  · split_ifs at h
    cases h
    exact ⟨rfl, rfl, rfl, rfl⟩

theorem live_of_ownsProjection (h : ownsProjection ordinal d = true) :
    d.status = .sent ∧ d.status.isTerminal = false := by
  simp only [ownsProjection, Bool.and_eq_true, decide_eq_true_eq] at h
  exact ⟨h.2, by rw [h.2]; rfl⟩

theorem completion_updates
    (hreached : reached = updateDelivery db key (ownsProjection ordinal) change)
    (h : completeAttempt reached role key ordinal result error now = .ok db')
    (hlegacy : ∀ d, (change d).legacyId = d.legacyId)
    (hattempts : ∀ d, (change d).attempts = d.attempts) : Updates db db' := by
  obtain ⟨he, hc, ho, hd⟩ := completeAttempt_ok h
  subst hreached
  refine .of_updateDelivery key _ _ he hc ho hd ?_
  intro d _ hguard
  obtain ⟨hsent, hlive⟩ := live_of_ownsProjection hguard
  exact .of_unclaimed (hlegacy d) (hattempts d) hlive fun _ => hsent

section

variable (policy : Policy) (db : Db) (role : CompletionRole) (key : DeliveryKey) (ordinal : Nat)

theorem completeSent_updates (now : Int) :
    Updates db (completeSent policy db role key ordinal now).1 := by
  unfold completeSent
  dsimp only
  split
  · exact Updates.refl db
  · rename_i db' h
    exact completion_updates rfl h (fun _ => rfl) fun _ => rfl

theorem completeError_updates (message : String) (now : Int) :
    Updates db (completeError policy db role key ordinal message now).1 := by
  unfold completeError
  dsimp only
  split
  · exact Updates.refl db
  · rename_i db' h
    exact completion_updates rfl h (fun _ => rfl) fun _ => rfl

end

theorem delivery_ne_sent (status : AckStatus) : status.delivery ≠ .sent := by
  cases status <;> decide

theorem acknowledge_updates {status : AckStatus} {next : Option Int} (he : db'.events = db.events)
    (hc : db'.tenantClock = db.tenantClock) (ho : db'.eventOrder = db.eventOrder)
    (hd : db'.deliveries = (acknowledge db key status next now).deliveries) : Updates db db' := by
  refine .of_updateDelivery key _ _ he hc ho hd ?_
  intro d _ hguard
  refine .of_unclaimed rfl rfl (by simpa using hguard) ?_
  intro hsent
  exact absurd hsent (delivery_ne_sent status)

theorem ackEvent_updates (policy : Policy) (db : Db) (tenantId : String) (eventId : Option Nat)
    (idempotencyKey : Option String) (status : AckStatus) (hmacVerified : Bool) (now : Int) :
    Updates db (ackEvent policy db tenantId eventId idempotencyKey status hmacVerified now).1 := by
  unfold ackEvent
  split
  · exact Updates.refl db
  · split
    · exact Updates.refl db
    · split
      · exact Updates.refl db
      · exact acknowledge_updates rfl rfl rfl rfl

theorem retryEvent_updates (policy : Policy) (db : Db) (key : DeliveryKey) (immediate : Bool)
    (now : Int) : Updates db (retryEvent policy db key immediate now).1 := by
  unfold retryEvent
  split
  · exact Updates.refl db
  · split
    · exact Updates.refl db
    · refine .of_updateDelivery key _ _ rfl rfl rfl rfl ?_
      intro d _ hguard
      rw [decide_eq_true_eq] at hguard
      refine .of_unclaimed rfl rfl (by rw [hguard]; rfl) ?_
      intro hsent
      cases hsent

theorem retireEvent_updates (db : Db) (key : DeliveryKey) (input : RetirementInput)
    (actorId : String) (now : Int) : Updates db (retireEvent db key input actorId now).1 := by
  unfold retireEvent
  split
  · exact Updates.refl db
  · split
    · exact Updates.refl db
    · rename_i current hcurrent
      split
      · split
        · exact Updates.refl db
        · split <;> exact Updates.refl db
      · split
        · exact Updates.refl db
        · rename_i hacked
          split
          · exact Updates.refl db
          · rename_i hretired
            split
            · exact Updates.refl db
            · dsimp only
              refine .of_updateDelivery key (fun _ => true) (fun delivery => { delivery with
                status := .retired, leaseUntil := none, nextAttemptAt := none, updatedAt := now })
                rfl rfl rfl rfl ?_
              intro d hd _
              cases hcurrent.symm.trans hd
              have hlive : current.status.isTerminal = false := by
                cases hstatus : current.status with
                | acked => exact absurd hstatus hacked
                | retired => exact absurd hstatus hretired
                | _ => rfl
              refine .of_unclaimed rfl rfl hlive ?_
              intro hsent
              cases hsent

theorem enqueue_updates (db : Db) (tenantId : String) (envelope : Envelope) (uuid : String)
    (now : Int) : Updates db (enqueue db tenantId envelope uuid now).1 := by
  unfold enqueue
  dsimp only
  split
  · exact Updates.refl db
  · split
    · split
      · exact Updates.refl db
      · exact .of_same rfl rfl (le_refl _) rfl
    · split
      · exact Updates.refl db
      · exact .of_same rfl rfl (le_refl _) rfl

theorem rerouteFailure_updates (db : Db) {db₁ : Db} (he : db₁.events = db.events)
    (hc : db₁.tenantClock = db.tenantClock) (ho : db₁.eventOrder = db.eventOrder)
    (hd : db₁.deliveries = db.deliveries) (id : String) (message : Message) (attempts : Nat)
    (text : String) (next now : Int) :
    Updates db (rerouteFailure db₁ id message attempts text next now) := by
  unfold rerouteFailure
  split
  · exact .of_same he hc (le_of_eq ho.symm) hd
  · rename_i eventId _
    refine .of_updateDelivery (message.tenantId, eventId)
      (fun delivery => delivery.status = .sentUnresolved)
      (fun delivery => { delivery with
        status := .error, nextAttemptAt := some next, lastError := some text, updatedAt := now })
      he hc ho ?_ ?_
    · dsimp only [updateDelivery]
      rw [hd]
    · intro d _ hguard
      rw [decide_eq_true_eq] at hguard
      refine .of_unclaimed rfl rfl (by rw [hguard]; rfl) ?_
      intro hsent
      cases hsent

theorem recordDispatchFailure_updates (policy : Policy) (db : Db) (id : String) (attempts : Nat)
    (text : String) (now : Int) :
    Updates db (recordDispatchFailure policy db id attempts text now).1 := by
  unfold recordDispatchFailure
  dsimp only
  split
  · exact Updates.refl db
  · split
    · exact rerouteFailure_updates db rfl rfl rfl rfl _ _ _ _ _ _
    · exact rerouteFailure_updates db (by rfl) (by rfl) (by rfl) (by rfl) _ _ _ _ _ _

theorem claimDue_updates (db : Db) (limit : Nat) (locked : List String) (now : Int) :
    Updates db (claimDue db limit locked now).1 := by
  unfold claimDue
  exact .of_same rfl rfl (le_refl _) rfl

theorem retry_updates (policy : Policy) (db : Db) (id : String) (immediate : Bool) (now : Int) :
    Updates db (retry policy db id immediate now).1 := by
  unfold retry
  split
  · exact Updates.refl db
  · split
    · exact Updates.refl db
    · exact .of_same rfl rfl (le_refl _) rfl

theorem ack_updates (policy : Policy) (db : Db) (input : AckInput) (now : Int) :
    Updates db (OutboxTables.ack policy db input now).1 := by
  unfold OutboxTables.ack
  split
  · exact Updates.refl db
  · dsimp only
    unfold rerouteAck
    split
    · exact .of_same rfl rfl (le_refl _) rfl
    · exact acknowledge_updates rfl rfl rfl rfl
  · exact Updates.refl db

theorem migrated_ne_sent (status : MessageStatus) : status.migrated ≠ .sent := by
  cases status <;> decide

theorem migrateOne_progress (hdb : Invariant db) (generation reading : Nat) (now : Int)
    (id : String) (message : Message) :
    Progress db (migrateOne generation reading now db id message).1 := by
  have hclocked := hdb.advance message.tenantId reading
  have hadvance : Progress db
      { db with tenantClock := advanceClock db.tenantClock message.tenantId reading } :=
    ⟨hclocked, Evolves.refl db, le_refl _⟩
  unfold migrateOne
  dsimp only
  split
  · exact Progress.refl hdb
  · rename_i order horder
    split
    · exact hadvance.trans (Progress.draw hclocked horder)
    · refine hadvance.trans ?_
      rcases insertEvent_cases
          { db with tenantClock := advanceClock db.tenantClock message.tenantId reading }
          (clockValue db.tenantClock message.tenantId reading) order
          (migratedEvent message (clockValue db.tenantClock message.tenantId reading))
        with ⟨e, hins⟩ | ⟨hins, hnew⟩
      · rw [hins]
        exact Progress.draw hclocked horder
      · rw [hins]
        have horder' : nextOrder
            { db with tenantClock := advanceClock db.tenantClock message.tenantId reading } =
            .ok order := horder
        have hms : (migratedEvent message
            (clockValue db.tenantClock message.tenantId reading)).createdAt =
            ((advanceClock db.tenantClock message.tenantId reading).get? message.tenantId).getD 0 :=
          (clockValue_eq db.tenantClock message.tenantId reading).symm
        dsimp only
        split
        · exact Inserts.progress hclocked (inserts_without_delivery horder'
            (migratedEvent message (clockValue db.tenantClock message.tenantId reading)) hms hnew
            rfl rfl rfl rfl)
        · have hrow : (migratedDelivery id message now).status ≠ .sent :=
            migrated_ne_sent message.status
          exact Inserts.progress hclocked (inserts_with_delivery hclocked horder'
            (migratedEvent message (clockValue db.tenantClock message.tenantId reading)) hms hnew
            rfl rfl rfl (migratedDelivery id message now) hrow rfl)

theorem migrateLoop_progress (generation : Nat) (now : Int) (rows : List (Nat × String × Message))
    (hdb : Invariant db) :
    Progress db (migrateLoop generation now db rows).1 := by
  induction rows generalizing db with
  | nil => exact Progress.refl hdb
  | cons row rest ih =>
    obtain ⟨reading, id, message⟩ := row
    have hone := migrateOne_progress hdb generation reading now id message
    rw [migrateLoop]
    split
    · rename_i db' e hstep
      rw [hstep] at hone
      exact hone
    · rename_i db' _ hstep
      rw [hstep] at hone
      exact hone.trans (ih hone.invariant)

theorem cutover_progress (hdb : Invariant db) (clock : Nat → Nat) (now : Int) :
    Progress db (cutoverLegacyMessages db clock now).1 := by
  unfold cutoverLegacyMessages
  split
  · exact Progress.refl hdb
  · dsimp only
    have hloop := migrateLoop_progress (db.generation + 1) now
      ((migrationRows db).zipIdx.map fun p => (clock p.2, p.1.1, p.1.2)) hdb
    split
    · rename_i reached e hreached
      rw [hreached] at hloop
      exact Progress.rollback hdb hloop.eventOrder
    · rename_i reached _ hreached
      rw [hreached] at hloop
      refine ⟨?_, hloop.evolves, hloop.eventOrder⟩
      exact
        { drawn := hloop.invariant.drawn
          clocked := hloop.invariant.clocked
          joined := hloop.invariant.joined
          inFlight := hloop.invariant.inFlight }

theorem exec_progress (policy : Policy) (hdb : Invariant db) (a : Label) :
    Progress db (exec policy db a) := by
  cases a with
  | append tenantId reading now events commits =>
    exact append_progress policy hdb tenantId reading now events commits
  | claim input => exact (claimEvents_updates policy db input).progress hdb
  | sent role key ordinal now =>
    exact (completeSent_updates policy db role key ordinal now).progress hdb
  | failed role key ordinal message now =>
    exact (completeError_updates policy db role key ordinal message now).progress hdb
  | ackEvent tenantId eventId idempotencyKey status hmacVerified now =>
    exact (ackEvent_updates policy db tenantId eventId idempotencyKey status hmacVerified
      now).progress hdb
  | retryEvent key immediate now =>
    exact (retryEvent_updates policy db key immediate now).progress hdb
  | retireEvent key input actorId now =>
    exact (retireEvent_updates db key input actorId now).progress hdb
  | enqueue tenantId envelope uuid now =>
    exact (enqueue_updates db tenantId envelope uuid now).progress hdb
  | claimDue limit locked now =>
    exact (claimDue_updates db limit locked now).progress hdb
  | recordDispatchFailure id attempts text now =>
    exact (recordDispatchFailure_updates policy db id attempts text now).progress hdb
  | retry id immediate now => exact (retry_updates policy db id immediate now).progress hdb
  | ack input now => exact (ack_updates policy db input now).progress hdb
  | cutover clock now => exact cutover_progress hdb clock now

section

variable (policy : Policy) (db : Db) (a : Label) (db' : Db) (hdb : Invariant db)
  (h : step policy db a = some db')
include hdb h

theorem step_invariant : Invariant db' := by
  cases h
  exact (exec_progress policy hdb a).invariant

theorem step_evolves : Evolves db db' := by
  cases h
  exact (exec_progress policy hdb a).evolves

end

theorem claimed_earlierTerminal (policy : Policy) (hdb : Invariant db)
    (h : (key, ordinal) ∈ (claimEvents policy db input).2) :
    ∃ e, db.events.get? key.2 = some e ∧ e.tenantId = key.1 ∧ EarlierTerminal db key.2 e := by
  obtain ⟨key', hdue, hrow⟩ := List.mem_filterMap.mp h
  obtain ⟨d', -, heq⟩ := Option.map_eq_some_iff.mp hrow
  cases heq
  obtain ⟨d, e, hd, he, -, -, hsettled⟩ := mem_dueKeys hdue
  obtain ⟨e', he', htenant⟩ := hdb.joined key d hd
  cases he.symm.trans he'
  exact ⟨e, he, htenant, (earlierSettled_iff hdb key.2 e).mp hsettled⟩

/-- A claim takes a delivery only when every earlier one of its aggregate is terminal, and the
deliveries in flight are in order. -/
theorem deliveries_claimed_in_order (policy : Policy) (labels : List Label) (db : Db)
    (hrun : run (step policy) Db.empty labels = some db) :
    (∀ input key ordinal, (key, ordinal) ∈ (claimEvents policy db input).2 →
      ∃ e, db.events.get? key.2 = some e ∧ e.tenantId = key.1 ∧ EarlierTerminal db key.2 e) ∧
    InFlightOrdered db := by
  have hdb : Invariant db := run_invariant (step_invariant policy) invariant_empty hrun
  exact ⟨fun _ _ _ h => claimed_earlierTerminal policy hdb h, hdb.inFlight⟩

/-- Fixed backoff and lease, every entity with a destination. -/
def samplePolicy : Policy := ⟨fun _ now => now + 900000, 300000, fun _ => true⟩

/-- Two events of one aggregate appended in one call. -/
def sampleAppend : Label :=
  .append "acme" 1000 1000
    [⟨"order", "1", "first", "{}", none⟩, ⟨"order", "1", "second", "{}", none⟩] true

/-- A sweep over all tenants. -/
def sampleSweep (now : Int) : ClaimInput := ⟨none, 10, none, [], now⟩

def firstAckedRun : List Label :=
  [sampleAppend, .claim (sampleSweep 2000), .ackEvent "acme" none (some "first") .acked true 3000]

theorem deliveries_claimed_in_order_firstAckedRun :
    ∃ db, run (step samplePolicy) Db.empty firstAckedRun = some db ∧
      (("acme", eventUuid 1000 2), 1) ∈ (claimEvents samplePolicy db (sampleSweep 4000)).2 ∧
      ∃ e, db.events.get? (eventUuid 1000 2) = some e ∧
        EarlierTerminal db (eventUuid 1000 2) e := by
  have hclaims : (run (step samplePolicy) Db.empty firstAckedRun).map
      (fun db => (claimEvents samplePolicy db (sampleSweep 4000)).2) =
      some [(("acme", eventUuid 1000 2), 1)] := by
    decide
  obtain ⟨db, hrun, hclaimed⟩ := Option.map_eq_some_iff.mp hclaims
  have hmem : (("acme", eventUuid 1000 2), 1) ∈
      (claimEvents samplePolicy db (sampleSweep 4000)).2 := by
    rw [hclaimed]
    exact .head _
  obtain ⟨e, he, -, hearlier⟩ :=
    (deliveries_claimed_in_order samplePolicy firstAckedRun db hrun).1 _ _ _ hmem
  exact ⟨db, hrun, hmem, e, he, hearlier⟩

theorem updateDelivery_eq_self {guard : Delivery → Bool}
    (h : ∀ d, db.deliveries.get? key = some d → guard d = false) :
    (updateDelivery db key guard change).deliveries = db.deliveries := by
  dsimp only [updateDelivery]
  refine OrderedMap.mapValues_eq_self ?_
  intro k d hd
  rw [if_neg]
  rintro ⟨rfl, hguard⟩
  rw [h d hd] at hguard
  cases hguard

theorem stale_completion (policy : Policy) (hd : db.deliveries.get? key = some d)
    (hstale : ordinal ≠ d.attempts) (role : CompletionRole) (message : String) (now : Int) :
    (completeSent policy db role key ordinal now).1.deliveries = db.deliveries ∧
      (completeError policy db role key ordinal message now).1.deliveries = db.deliveries := by
  have hguard : ∀ d', db.deliveries.get? key = some d' → ownsProjection ordinal d' = false := by
    intro d' hd'
    cases hd.symm.trans hd'
    rw [ownsProjection, Bool.and_eq_false_iff]
    exact .inl (decide_eq_false fun h => hstale h.symm)
  constructor
  · unfold completeSent
    dsimp only
    split
    · rfl
    · rename_i db' h
      exact (completeAttempt_ok h).2.2.2.trans (updateDelivery_eq_self hguard)
  · unfold completeError
    dsimp only
    split
    · rfl
    · rename_i db' h
      exact (completeAttempt_ok h).2.2.2.trans (updateDelivery_eq_self hguard)

/-- A delivery row stays, its attempts never decrease, and once it is terminal it never changes; a
completion with another ordinal than the current one leaves the projection as it is. -/
theorem deliveries_monotone (policy : Policy) (before after : List Label) (s t : Db)
    (hs : run (step policy) Db.empty before = some s)
    (ht : run (step policy) s after = some t) :
    (∀ key d, s.deliveries.get? key = some d → ∃ d', t.deliveries.get? key = some d' ∧
      d.attempts ≤ d'.attempts ∧ (d.status = .acked ∨ d.status = .retired → d' = d)) ∧
    ∀ key d, t.deliveries.get? key = some d → ∀ ordinal, ordinal ≠ d.attempts →
      ∀ role message now,
        (completeSent policy t role key ordinal now).1.deliveries = t.deliveries ∧
        (completeError policy t role key ordinal message now).1.deliveries = t.deliveries := by
  have hinv : Invariant s := run_invariant (step_invariant policy) invariant_empty hs
  have hevolves : Evolves s t :=
    run_relation Evolves.refl (fun _ _ _ => Evolves.trans) (step_invariant policy)
      (step_evolves policy) hinv ht
  constructor
  · intro key d hd
    obtain ⟨d', hd', -, hattempts, hterm⟩ := hevolves key d hd
    refine ⟨d', hd', hattempts, ?_⟩
    rintro (h | h)
    · exact hterm (by rw [h]; rfl)
    · exact hterm (by rw [h]; rfl)
  · intro key d hd ordinal hstale role message now
    exact stale_completion policy hd hstale role message now

/-- The completion of the first attempt arrives after a second claim. -/
def lateCompletionRun : List Label :=
  [.claim (sampleSweep 500000), .failed .owner ("acme", eventUuid 1000 1) 1 "timeout" 500001,
    .ackEvent "acme" none (some "first") .acked true 500002]

theorem deliveries_monotone_lateCompletionRun :
    ∃ s t, run (step samplePolicy) Db.empty [sampleAppend, .claim (sampleSweep 2000)] = some s ∧
      run (step samplePolicy) s lateCompletionRun = some t ∧
      (t.deliveries.get? ("acme", eventUuid 1000 1)).map (fun d => (d.status, d.attempts)) =
        some (.acked, 2) ∧
      (completeSent samplePolicy t .owner ("acme", eventUuid 1000 1) 1 500003).1.deliveries =
        t.deliveries := by
  have hruns : ((run (step samplePolicy) Db.empty [sampleAppend, .claim (sampleSweep 2000)]).bind
      fun s => run (step samplePolicy) s lateCompletionRun).map
      (fun t => (t.deliveries.get? ("acme", eventUuid 1000 1)).map
        fun d => (d.status, d.attempts)) = some (some (.acked, 2)) := by
    decide
  obtain ⟨t, hbind, hrow⟩ := Option.map_eq_some_iff.mp hruns
  obtain ⟨s, hs, ht⟩ := Option.bind_eq_some_iff.mp hbind
  obtain ⟨d, hd, hfields⟩ := Option.map_eq_some_iff.mp hrow
  have hstale : (1 : Nat) ≠ d.attempts := by
    rw [Prod.mk.injEq] at hfields
    omega
  exact ⟨s, t, hs, ht, hrow, ((deliveries_monotone samplePolicy _ _ s t hs ht).2 _ d hd 1 hstale
    .owner "" 500003).1⟩

end Stynx.OutboxDelivery
