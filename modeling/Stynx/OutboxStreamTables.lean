import Stynx.OutboxCutover
import Stynx.OutboxStreams

/-!
# The log under the clock of a tenant

While a transaction holds the clock no other one appends, and what it appends carries at least the
millisecond of the clock and a later order than all before. So the log of a tenant is committed in
its own order, and what is committed later lies after every cursor that could be taken before.
-/

namespace Stynx.OutboxStreams

open CursorLogs OutboxTables OutboxDelivery TransitionRuns OrderedMap

variable {tenantId : String} {db db' : Db}

variable {p : Nat × Event} {order tx : Nat} {s t : State} {policy : Policy}
  {ports : EventStream.Ports}

theorem place_lt_iff {q : Nat × Event} : place p < place q ↔
    p.2.createdAt < q.2.createdAt ∨ p.2.createdAt = q.2.createdAt ∧ p.1 < q.1 := by
  simp only [place, Prod.Lex.toLex_lt_toLex, Nat.cast_lt, Nat.cast_inj]

theorem hexField_lt (value width : Nat) : hexField value width < 16 ^ width := by
  unfold hexField
  split
  · assumption
  case isFalse hlarge =>
    have hlog : value < 16 ^ (Nat.log 16 value + 1) := Nat.lt_pow_succ_log_self (by decide) value
    have hwidth : width ≤ Nat.log 16 value + 1 := by
      by_contra hless
      exact hlarge (hlog.trans_le (Nat.pow_le_pow_right (by decide) (by omega)))
    refine Nat.div_lt_of_lt_mul ?_
    rw [← Nat.pow_add, Nat.sub_add_cancel hwidth]
    exact hlog

theorem eventUuid_lt_pow (ms : Nat) (h : order < 2 ^ 63) : eventUuid ms order < 2 ^ 128 := by
  have hms := hexField_lt ms 12
  have horder : hexField (order / 2 ^ 62) 3 ≤ 1 := by
    rw [hexField, if_pos (by omega)]
    omega
  unfold eventUuid
  omega

theorem id_lt (h : OutboxDelivery.Invariant db) (hmem : p ∈ log db tenantId) : p.1 < 2 ^ 128 := by
  obtain ⟨order, -, hbound, hid⟩ :=
    h.drawn p.1 p.2 (mem_entries_iff.mp (List.mem_filter.mp hmem).1)
  rw [hid]
  exact eventUuid_lt_pow _ hbound

theorem text_ne_empty (n : Nat) : UuidTexts.text n ≠ "" := by
  intro hempty
  have hlength := UuidTexts.length_text n
  rw [hempty] at hlength
  cases hlength

theorem cursorPlace_toRow (h : p.1 < 2 ^ 128) :
    cursorPlace (toRow p).toCursor = some (place p) := by
  simp only [cursorPlace, toRow, text_ne_empty, if_false, UuidTexts.parse_text h,
    Option.map_some, place]

theorem listSince_eq (hlog : Ordered place (log db tenantId)) (cursor : EventStream.Cursor)
    (limit : Nat) : listSince db tenantId cursor limit = (cursorPlace cursor).map fun from_ =>
      ((since place (log db tenantId) from_).take limit).map toRow := by
  unfold listSince
  congr 1
  funext from_
  simp only
  rw [List.mergeSort_of_pairwise]
  · rfl
  · exact (List.Pairwise.filter _ hlog).imp fun hlt => decide_eq_true hlt.le

theorem mem_of_findById {id : String} {row : EventStream.Row}
    (h : findById db tenantId id = some row) : ∃ p ∈ log db tenantId, row = toRow p := by
  obtain ⟨uuid, -, hrow⟩ := Option.bind_eq_some_iff.mp h
  obtain ⟨event, hget, htenant⟩ := Option.bind_eq_some_iff.mp hrow
  split at htenant
  case isTrue hown =>
    cases htenant
    exact ⟨_, List.mem_filter.mpr ⟨mem_entries_iff.mpr hget, decide_eq_true hown⟩, rfl⟩
  case isFalse => cases htenant

def reachedMs (db : Db) (tenantId : String) : Nat := (db.tenantClock.get? tenantId).getD 0

structure Base (tenantId : String) (db : Db) : Prop where
  tables : OutboxDelivery.Invariant db
  ordered : Ordered place (log db tenantId)
  /-- The messages that have been migrated have identifiers of their own. -/
  apart : ∀ ms order mapping,
    db.legacyEventMap.get? (UuidTexts.text (eventUuid ms order)) = some mapping →
      mapping.tenantId ≠ tenantId

theorem Base.findById_text (h : Base tenantId db) (hmem : p ∈ log db tenantId) :
    findById db tenantId (UuidTexts.text p.1) = some (toRow p) := by
  obtain ⟨hentry, htenant⟩ := List.mem_filter.mp hmem
  have hget := mem_entries_iff.mp hentry
  obtain ⟨order, -, -, hid⟩ := h.tables.drawn p.1 p.2 hget
  -- no migrated message has the identifier
  have hmap : ((db.legacyEventMap.get? (UuidTexts.text p.1)).bind fun mapping =>
      if mapping.tenantId = tenantId then some mapping.eventId else none) = none := by
    refine Option.bind_eq_none_iff.mpr fun mapping hmapping => if_neg ?_
    rw [hid] at hmapping
    exact h.apart _ _ mapping hmapping
  simp only [findById, UuidTexts.parse_text (id_lt h.tables hmem), Option.bind_some, hmap,
    Option.getD_none, hget]
  exact if_pos (of_decide_eq_true htenant)

structure Grows (tenantId : String) (db db' : Db) : Prop where
  /-- The log grows at its end, with milliseconds from the clock on. -/
  log : ∃ new, log db' tenantId = log db tenantId ++ new ∧
    ∀ p ∈ new, reachedMs db tenantId ≤ p.2.createdAt
  /-- The clock does not go back. -/
  clock : reachedMs db tenantId ≤ reachedMs db' tenantId
  /-- The sequence does not go back. -/
  eventOrder : db.eventOrder ≤ db'.eventOrder

theorem Grows.refl (tenantId : String) (db : Db) : Grows tenantId db db where
  log := ⟨[], (List.append_nil _).symm, fun _ hmem => by cases hmem⟩
  clock := Nat.le_refl _
  eventOrder := Nat.le_refl _

theorem Grows.trans {mid : Db} (h : Grows tenantId db mid) (h' : Grows tenantId mid db') :
    Grows tenantId db db' := by
  obtain ⟨new, hlog, hms⟩ := h.log
  obtain ⟨new', hlog', hms'⟩ := h'.log
  refine ⟨⟨new ++ new', ?_, fun p hmem => ?_⟩, h.clock.trans h'.clock,
    h.eventOrder.trans h'.eventOrder⟩
  · rw [hlog', hlog, List.append_assoc]
  · rcases List.mem_append.mp hmem with hold | hnew
    · exact hms p hold
    · exact h.clock.trans (hms' p hnew)

/-- Places that a cursor can have: those of the log, and the milliseconds of the clock. -/
def Reached (tenantId : String) (db : Db) (from_ : Place) : Prop :=
  (∃ p ∈ log db tenantId, from_ = place p) ∨
    ∃ ms, ms ≤ reachedMs db tenantId ∧ from_ = toLex ((ms : Int), ⊥)

variable {from_ : Place} {event : Event} {label : EventStream.Label}

theorem Reached.grow (h : Reached tenantId db from_) (hgrows : Grows tenantId db db') :
    Reached tenantId db' from_ := by
  obtain ⟨new, hlog, -⟩ := hgrows.log
  rcases h with ⟨p, hmem, hfrom⟩ | ⟨ms, hms, hfrom⟩
  · exact .inl ⟨p, hlog ▸ List.mem_append_left _ hmem, hfrom⟩
  · exact .inr ⟨ms, hms.trans hgrows.clock, hfrom⟩

theorem Reached.lt_new (h : Reached tenantId db from_) (hordered : Ordered place (log db' tenantId))
    {new : List (Nat × Event)} (hlog : log db' tenantId = log db tenantId ++ new)
    (hms : ∀ p ∈ new, reachedMs db tenantId ≤ p.2.createdAt) (hmem : p ∈ new) :
    from_ < place p := by
  rcases h with ⟨q, hq, rfl⟩ | ⟨ms, hle, rfl⟩
  · rw [hlog] at hordered
    exact hordered.lt_of_append hq hmem
  · have hafter := hle.trans (hms p hmem)
    rw [place, Prod.Lex.toLex_lt_toLex]
    rcases Nat.lt_or_eq_of_le hafter with hlt | heq
    · exact .inl (Int.ofNat_lt.mpr hlt)
    · exact .inr ⟨congrArg Int.ofNat heq, WithBot.bot_lt_coe _⟩

theorem reachedMs_tick (db : Db) (tenantId : String) (reading : Nat) :
    reachedMs (tick db tenantId reading) tenantId = clockValue db.tenantClock tenantId reading :=
  clockValue_eq db.tenantClock tenantId reading

theorem grows_tick (db : Db) (tenantId : String) (reading : Nat) :
    Grows tenantId db (tick db tenantId reading) where
  log := ⟨[], (List.append_nil _).symm, fun _ hmem => by cases hmem⟩
  clock := by
    rw [reachedMs_tick]
    exact Nat.le_max_left _ _
  eventOrder := Nat.le_refl _

theorem Base.tick (h : Base tenantId db) (reading : Nat) :
    Base tenantId (tick db tenantId reading) :=
  ⟨h.tables.advance tenantId reading, h.ordered, h.apart⟩

theorem Base.draw (h : Base tenantId db) (hle : db.eventOrder ≤ order) :
    Base tenantId { db with eventOrder := order } :=
  ⟨h.tables.update (.of_same rfl rfl hle rfl), h.ordered, h.apart⟩

theorem grows_draw (hle : db.eventOrder ≤ order) :
    Grows tenantId db { db with eventOrder := order } where
  log := ⟨[], (List.append_nil _).symm, fun _ hmem => by cases hmem⟩
  clock := Nat.le_refl _
  eventOrder := hle

theorem log_insert (h : Inserts db db' order event) (htenant : event.tenantId = tenantId) :
    log db' tenantId = log db tenantId ++ [(eventUuid event.createdAt order, event)] := by
  have hkey : eventUuid event.createdAt order ∉ db.events.entries.map Prod.fst := by
    intro hmem
    obtain ⟨p, hp, hid⟩ := List.mem_map.mp hmem
    have hget := mem_entries_iff.mp hp
    rw [hid, h.fresh] at hget
    cases hget
  have hentries : db'.events.entries =
      db.events.entries ++ [(eventUuid event.createdAt order, event)] := by
    rw [h.events]
    exact OrderedMap.setEntry_of_not_mem event hkey
  rw [log, log, hentries, List.filter_append, List.filter_singleton, decide_eq_true htenant]
  rfl

theorem Base.insert (hbase : Base tenantId db) (h : Inserts db db' order event)
    (htenant : event.tenantId = tenantId) (hmap : db'.legacyEventMap = db.legacyEventMap) :
    Base tenantId db' ∧ Grows tenantId db db' := by
  have hlog := log_insert h htenant
  refine ⟨⟨hbase.tables.insert h, ?_, hmap ▸ hbase.apart⟩, ⟨⟨_, hlog, ?_⟩, ?_, ?_⟩⟩
  · -- the event comes after every event of its tenant, and its identifier is new
    rw [hlog]
    refine List.pairwise_append.mpr ⟨hbase.ordered, List.pairwise_singleton _ _, ?_⟩
    intro p hp q hq
    obtain ⟨hentry, hown⟩ := List.mem_filter.mp hp
    have hget := mem_entries_iff.mp hentry
    have hlast := h.last hbase.tables hget ((of_decide_eq_true hown).trans htenant.symm)
    have hne : p.1 ≠ eventUuid event.createdAt order := by
      intro heq
      rw [heq, h.fresh] at hget
      cases hget
    rw [List.mem_singleton.mp hq, place_lt_iff]
    simp only [precedes, Bool.or_eq_false_iff, Bool.and_eq_false_iff,
      decide_eq_false_iff_not] at hlast ⊢
    omega
  · intro p hp
    rw [List.mem_singleton.mp hp, h.createdAt, htenant]
    exact le_rfl
  · rw [reachedMs, reachedMs, h.tenantClock]
  · rw [h.eventOrder]
    exact h.drawn.1.le

theorem appendOne_base (policy : Policy) (hbase : Base tenantId db) (now : Int)
    (event : AppendEvent) {ms : Nat} (hms : ms = reachedMs db tenantId) :
    Base tenantId (appendOne policy tenantId ms now db event).1 ∧
      Grows tenantId db (appendOne policy tenantId ms now db event).1 ∧
      reachedMs (appendOne policy tenantId ms now db event).1 tenantId = ms := by
  rcases appendOne_cases policy hbase.tables hms now event with
    ⟨order, hle, hsame⟩ | ⟨order, inserted, htenant, hinserts⟩
  · rw [hsame]
    exact ⟨hbase.draw hle, grows_draw hle, hms.symm⟩
  · have hmap : (appendOne policy tenantId ms now db event).1.legacyEventMap =
        db.legacyEventMap :=
      (OutboxCutover.appendOne_appends policy hbase.tables tenantId ms now event).legacyEventMap
    obtain ⟨hnext, hgrows⟩ := hbase.insert hinserts htenant hmap
    refine ⟨hnext, hgrows, ?_⟩
    rw [reachedMs, hinserts.tenantClock, hms]
    rfl

/-- What holds of a transaction that has taken the clock. -/
structure Writes (tenantId : String) (db : Db) (writer : Writer) : Prop where
  base : Base tenantId (writer.tables db)
  /-- They have grown out of those that are committed. -/
  grows : Grows tenantId db (writer.tables db)
  /-- It has read the clock. -/
  ms : writer.ms = reachedMs writer.view tenantId

/-- What holds of the tables in every state of a run. -/
structure Holds (tenantId : String) (s : State) : Prop where
  base : Base tenantId s.db
  /-- The transaction that holds the clock. -/
  writes : ∀ writer, s.writer = some writer → Writes tenantId s.db writer

section

variable (h : Holds tenantId s)
include h

theorem Holds.enter {reading : Nat} (henter : enter s tenantId tx reading = some t) :
    Holds tenantId t ∧ t.db = s.db := by
  -- from the committed tables, or from those that it sees already
  have hentered : ∀ view : Db, Base tenantId { view with eventOrder := s.db.eventOrder } →
      Grows tenantId s.db { view with eventOrder := s.db.eventOrder } →
      some { s with writer := some ⟨tx, clockValue view.tenantClock tenantId reading,
        tick view tenantId reading, false⟩ } = some t → Holds tenantId t ∧ t.db = s.db := by
    intro view hbase hgrows heq
    cases heq
    refine ⟨⟨h.base, fun writer hwriter => ?_⟩, rfl⟩
    cases hwriter
    exact ⟨hbase.tick reading, hgrows.trans (grows_tick _ tenantId reading),
      (reachedMs_tick view tenantId reading).symm⟩
  unfold OutboxStreams.enter at henter
  simp only at henter
  split at henter
  case h_1 => exact hentered s.db h.base (Grows.refl tenantId s.db) henter
  case h_2 writer hwriter =>
    split at henter
    · have hwrites := h.writes writer hwriter
      exact hentered writer.view hwrites.base hwrites.grows henter
    · cases henter

theorem Holds.insert {now : Int} {event : AppendEvent}
    (hinsert : insert policy s tenantId tx now event = some t) :
    Holds tenantId t ∧ Grows tenantId s.db t.db := by
  obtain ⟨writer, hwriter, hmoved⟩ := Option.bind_eq_some_iff.mp hinsert
  split at hmoved
  case isFalse => cases hmoved
  case isTrue =>
    cases hmoved
    have hwrites := h.writes writer hwriter
    obtain ⟨hbase, hgrows, hms⟩ := appendOne_base policy hwrites.base now event hwrites.ms
    refine ⟨⟨h.base.draw hgrows.eventOrder, fun next hnext => ?_⟩, grows_draw hgrows.eventOrder⟩
    cases hnext
    refine ⟨hbase, ?_, hms.symm⟩
    obtain ⟨hlog, hclock, -⟩ := hwrites.grows.trans hgrows
    exact ⟨hlog, hclock, le_rfl⟩

theorem Holds.finish {commits : Bool} (hfinish : finish s tx commits = some t) :
    Holds tenantId t ∧ Grows tenantId s.db t.db := by
  obtain ⟨writer, hwriter, hmoved⟩ := Option.bind_eq_some_iff.mp hfinish
  split at hmoved
  case isFalse => cases hmoved
  case isTrue =>
    cases hmoved
    have hwrites := h.writes writer hwriter
    cases hcommits : commits && !writer.aborted with
    | true =>
      rw [if_pos rfl]
      exact ⟨⟨hwrites.base, fun _ hnone => by cases hnone⟩, hwrites.grows⟩
    | false =>
      rw [if_neg Bool.false_ne_true]
      exact ⟨⟨h.base, fun _ hnone => by cases hnone⟩, Grows.refl tenantId s.db⟩

theorem Holds.draw (hle : s.db.eventOrder ≤ order) :
    Holds tenantId { s with db := { s.db with eventOrder := order } } := by
  refine ⟨h.base.draw hle, fun writer hwriter => ?_⟩
  have hwrites := h.writes writer hwriter
  have hbase : Base tenantId { writer.tables s.db with eventOrder := order } :=
    hwrites.base.draw hle
  refine ⟨hbase, ?_, hwrites.ms⟩
  obtain ⟨hlog, hclock, -⟩ := hwrites.grows
  exact ⟨hlog, hclock, le_rfl⟩

theorem Holds.preflight (hnone : s.writer = none) (reading : Nat) :
    Holds tenantId { s with db := tick s.db tenantId reading } := by
  refine ⟨h.base.tick reading, fun writer hwriter => ?_⟩
  rw [hnone] at hwriter
  cases hwriter

end

theorem serve_tables (h : serve ports s label = some t) : t.db = s.db ∧ t.writer = s.writer := by
  obtain ⟨service, -, rfl⟩ := Option.map_eq_some_iff.mp h
  exact ⟨rfl, rfl⟩

theorem Holds.serve (h : Holds tenantId s) (hserve : serve ports s label = some t) :
    Holds tenantId t ∧ Grows tenantId s.db t.db := by
  obtain ⟨hdb, hwriter⟩ := serve_tables hserve
  refine ⟨⟨hdb ▸ h.base, fun writer hsome => ?_⟩, hdb ▸ Grows.refl tenantId s.db⟩
  rw [hdb]
  exact h.writes writer (hwriter ▸ hsome)

theorem Holds.step (h : Holds tenantId s) {label : Label}
    (hstep : OutboxStreams.step policy ports tenantId s label = some t) :
    Holds tenantId t ∧ Grows tenantId s.db t.db := by
  cases label with
  | clock tx reading =>
    obtain ⟨hholds, hdb⟩ := h.enter hstep
    exact ⟨hholds, hdb ▸ Grows.refl tenantId s.db⟩
  | insert tx now event => exact h.insert hstep
  | commit tx => exact h.finish hstep
  | rollback tx => exact h.finish hstep
  | draw order =>
    rw [OutboxStreams.step] at hstep
    split at hstep
    case isTrue hle =>
      cases hstep
      exact ⟨h.draw hle.1, grows_draw hle.1⟩
    case isFalse => cases hstep
  | otherPreflight reading =>
    rw [OutboxStreams.step] at hstep
    split at hstep
    case isTrue hnone =>
      cases hstep
      exact ⟨h.preflight (Option.isNone_iff_eq_none.mp hnone) reading,
        grows_tick s.db tenantId reading⟩
    case isFalse => cases hstep
  | service label =>
    rw [OutboxStreams.step] at hstep
    split at hstep
    · exact h.serve hstep
    · cases hstep
  | find index succeeds =>
    obtain ⟨c, -, hmoved⟩ := Option.bind_eq_some_iff.mp hstep
    split at hmoved
    · exact h.serve hmoved
    · cases hmoved
  | preflight index reading succeeds =>
    rw [OutboxStreams.step] at hstep
    split at hstep
    · split at hstep
      case isTrue hnone =>
        obtain ⟨hholds, hgrows⟩ :=
          (h.preflight (Option.isNone_iff_eq_none.mp hnone) reading).serve hstep
        exact ⟨hholds, (grows_tick s.db tenantId reading).trans hgrows⟩
      case isFalse => cases hstep
    · exact h.serve hstep
  | list index succeeds =>
    obtain ⟨c, -, hmoved⟩ := Option.bind_eq_some_iff.mp hstep
    exact h.serve hmoved

theorem Holds.run (h : Holds tenantId s) {labels : List Label}
    (hrun : TransitionRuns.run (OutboxStreams.step policy ports tenantId) s labels = some t) :
    Holds tenantId t ∧ Grows tenantId s.db t.db :=
  ⟨run_invariant (I := Holds tenantId) (fun _ _ _ hs hstep => (hs.step hstep).1) h hrun,
    run_relation (I := Holds tenantId) (R := fun a b => Grows tenantId a.db b.db)
      (fun s => Grows.refl tenantId s.db) (fun _ _ _ => Grows.trans)
      (fun _ _ _ hs hstep => (hs.step hstep).1) (fun _ _ _ hs hstep => (hs.step hstep).2) h hrun⟩

end Stynx.OutboxStreams
