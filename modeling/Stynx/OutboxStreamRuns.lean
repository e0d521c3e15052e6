import Stynx.CallTables
import Stynx.OutboxStreamTables

/-!
# Streams follow the log

What a stream has passed and what lies after its cursor make up what lies after its first
cursor, in every state of a run. Its tick holds a beginning of what lies after the cursor; the log
grows behind both.
-/

namespace Stynx.OutboxStreams

open CallTables CursorLogs EventStream OutboxTables TransitionRuns

variable {tenantId : String} {db db' : Db} {c c' : Connection} {r r' : Reader}

def left : Tick → List Row
  | .rows rest => rest
  | .projecting row rest => row :: rest
  | _ => []

def rowsSince (db : Db) (tenantId : String) (from_ : Place) : List Row :=
  (since place (log db tenantId) from_).map toRow

/-- A stream that began with a cursor has followed the log. -/
structure Streams (tenantId : String) (db : Db) (c : Connection) (r : Reader) (start : Cursor) :
    Prop where
  /-- `open` has begun the stream. -/
  isOpened : c.isOpened = true
  /-- Its cursors are places that were reached, and it has passed what lies between them. -/
  follows : ∃ first from_ passed, cursorPlace start = some first ∧
    cursorPlace c.cursor = some from_ ∧ Reached tenantId db first ∧ Reached tenantId db from_ ∧
    Follows place (log db tenantId) first from_ passed ∧
    r.passed.map Prod.fst = passed.map toRow ∧ left c.tick <+: rowsSince db tenantId from_

structure Sees (tenantId : String) (db : Db) (c : Connection) (r : Reader) : Prop where
  /-- Before its stream begins, nothing runs. -/
  waits : r.start = none → c.isOpened = false ∧ c.tick = .idle ∧ c.schedules = [] ∧ r.passed = []
  found : ∀ row, c.phase = .now (some row) → ∃ p ∈ log db tenantId, row = toRow p
  /-- From then on it follows the log. -/
  streams : ∀ start, r.start = some start → Streams tenantId db c r start

theorem Sees.grow (h : Sees tenantId db c r) (hbase : Base tenantId db')
    (hgrows : Grows tenantId db db') : Sees tenantId db' c r := by
  obtain ⟨new, hlog, hms⟩ := hgrows.log
  refine ⟨h.waits, fun row hrow => ?_, fun start hstart => ?_⟩
  · obtain ⟨p, hmem, heq⟩ := h.found row hrow
    exact ⟨p, hlog ▸ List.mem_append_left _ hmem, heq⟩
  · obtain ⟨hopened, first, from_, passed, hfirst, hfrom, hreached, hreached', hfollows, hrows,
      hleft⟩ := h.streams start hstart
    have hafter : ∀ p ∈ new, first < place p := fun p hmem =>
      hreached.lt_new hbase.ordered hlog hms hmem
    have hafter' : ∀ p ∈ new, from_ < place p := fun p hmem =>
      hreached'.lt_new hbase.ordered hlog hms hmem
    refine ⟨hopened, first, from_, passed, hfirst, hfrom, hreached.grow hgrows,
      hreached'.grow hgrows, ?_, hrows, ?_⟩
    · rw [hlog]
      exact hfollows.grow hafter hafter'
    · rw [rowsSince, hlog, since_append hafter', List.map_append]
      exact hleft.trans (List.prefix_append _ _)

/-- The replies of the source come from the tables. -/
def Replies (tenantId : String) (db : Db) (c : Connection) : EventStream.Label → Prop
  | .findReply _ (some visible) => ∀ lastId, c.phase = .findById lastId →
    visible = findById db tenantId lastId
  | .nowReply _ (some now) => ∃ ms : Nat, now = ms ∧ ms ≤ reachedMs db tenantId
  | .listReply _ (some rows) => ∃ limit, listSince db tenantId c.cursor limit = some rows
  | _ => True

theorem Sees.rests (h : Sees tenantId db c r) (hrests : Rests c c')
    (hopened : c'.isOpened = c.isOpened)
    (hfound : ∀ row, c'.phase = .now (some row) → ∃ p ∈ log db tenantId, row = toRow p) :
    Sees tenantId db c' r := by
  refine ⟨fun hnone => ?_, hfound, fun start hstart => ?_⟩
  · obtain ⟨hclosed, hidle, hschedules, hpassed⟩ := h.waits hnone
    exact ⟨hopened.trans hclosed, hrests.tick.trans hidle, hrests.schedules hschedules, hpassed⟩
  · obtain ⟨hwas, hfollows⟩ := h.streams start hstart
    rw [← hrests.cursor, ← hrests.tick] at hfollows
    exact ⟨hopened.trans hwas, hfollows⟩

theorem Sees.continues (h : Sees tenantId db c r) {start : Cursor} (hstart : r.start = some start)
    (hopened : c'.isOpened = c.isOpened) (hcursor : c'.cursor = c.cursor)
    (hleft : ∀ from_, cursorPlace c.cursor = some from_ →
      left c.tick <+: rowsSince db tenantId from_ → left c'.tick <+: rowsSince db tenantId from_) : Sees tenantId db c' r := by
  obtain ⟨hwas, first, from_, passed, hfirst, hfrom, hreached, hreached', hfollows, hrows, htick⟩ :=
    h.streams start hstart
  refine ⟨fun hnone => ?_, fun row hrow => ?_, fun other hother => ?_⟩
  · rw [hstart] at hnone
    cases hnone
  · rw [hwas, Connection.isOpened, hrow] at hopened
    cases hopened
  · rw [hstart] at hother
    cases hother
    exact ⟨hopened.trans hwas, first, from_, passed, hfirst, hcursor.symm ▸ hfrom, hreached,
      hreached', hfollows, hrows, hleft from_ hfrom htick⟩

theorem Sees.begun (h : Sees tenantId db c r)
    (hruns : c.isOpened = true ∨ c.schedules ≠ [] ∨ c.tick ≠ .idle) :
    ∃ start, r.start = some start := by
  cases hstart : r.start with
  | some start => exact ⟨start, rfl⟩
  | none =>
    obtain ⟨hclosed, hidle, hschedules, -⟩ := h.waits hstart
    rcases hruns with hopened | hscheduled | hbusy
    · rw [hclosed] at hopened
      cases hopened
    · exact absurd hschedules hscheduled
    · exact absurd hidle hbusy

theorem Sees.passes (h : Sees tenantId db c r) (hbase : Base tenantId db) {row : Row}
    {rest : List Row} (htick : left c.tick = row :: rest) (hbusy : c.tick ≠ .idle)
    (htick' : left c'.tick = rest) (hcursor : c'.cursor = row.toCursor)
    (hopened : c'.isOpened = c.isOpened) (how : Fate) :
    Sees tenantId db c' { r with passed := r.passed ++ [(row, how)] } := by
  obtain ⟨start, hstart⟩ := h.begun (Or.inr (Or.inr hbusy))
  obtain ⟨hwas, first, from_, passed, hfirst, hfrom, hreached, hreached', hfollows, hrows, hleft⟩ :=
    h.streams start hstart
  refine ⟨fun hnone => ?_, fun row hrow => ?_, fun other hother => ?_⟩
  · rw [hstart] at hnone
    cases hnone
  · rw [hwas, Connection.isOpened, hrow] at hopened
    cases hopened
  · rw [hstart] at hother
    cases hother
    -- the row is the first one after the cursor
    rw [htick] at hleft
    obtain ⟨more, hmore⟩ := hleft
    obtain ⟨p, after, hsince, hp, hafter⟩ := List.map_eq_cons_iff.mp hmore.symm
    have hmem : p ∈ log db tenantId := (mem_since.mp (hsince ▸ List.mem_cons_self)).1
    have hplace : cursorPlace row.toCursor = some (place p) := by
      rw [← hp]
      exact cursorPlace_toRow (id_lt hbase.tables hmem)
    refine ⟨hopened.trans hwas, first, place p, passed ++ [p], hfirst, hcursor ▸ hplace, hreached,
      Or.inl ⟨p, hmem, rfl⟩, hfollows.pass hbase.ordered hsince, ?_, ?_⟩
    · rw [List.map_append, List.map_append, hrows, List.map_singleton, List.map_singleton, hp]
    · rw [htick', rowsSince, since_head hbase.ordered hsince, hafter]
      exact List.prefix_append _ _

variable {label : EventStream.Label}

theorem watch_of_quiet (h : label.quiet = true) (before after : EventStream.State)
    (c c' : Connection) (r : Reader) :
    r.watch label before after c c' = r := by
  cases label <;> first | rfl | cases h

theorem watch_of_ends (h : label.replies = true) (hphase : c'.phase = .returned)
    (before after : EventStream.State) (c : Connection) (r : Reader) :
    r.watch label before after c c' = r := by
  cases label with
  | nowReply i reply => exact if_neg (by rw [Connection.isOpened, hphase]; exact Bool.false_ne_true)
  | findReply i reply => rfl
  | _ => cases h

theorem watch_of_turns (h : label.turns = true) (before after : EventStream.State)
    (c c' : Connection) (r : Reader) :
    r.watch label before after c c' = match passedRow c c' with
      | some row => { r with passed := r.passed ++ [(row, fate before after)] }
      | none => r := by
  cases label <;> first | rfl | cases h

theorem Sees.moves (h : Sees tenantId db c r) (hbase : Base tenantId db) (hmoves : Moves label c c')
    (hreplies : Replies tenantId db c label) (before after : EventStream.State) :
    Sees tenantId db c' (r.watch label before after c c') := by
  cases hmoves with
  | rests hquiet hrests hphase =>
    rw [watch_of_quiet hquiet]
    exact h.rests hrests (isOpened_eq hphase) fun row hrow => h.found row (hphase ▸ hrow)
  | works hquiet hruns hopened hcursor htick =>
    rw [watch_of_quiet hquiet]
    obtain ⟨start, hstart⟩ := h.begun (hruns.imp_right .inl)
    refine h.continues hstart hopened hcursor fun from_ _ hleft => ?_
    rcases htick with hsame | ⟨-, hlisting⟩
    · rw [hsame]
      exact hleft
    · rw [hlisting]
      exact List.nil_prefix
  | @finds i visible lastId _ _ hphase hphase' hrests =>
    refine h.rests hrests ?_ fun row hrow => ?_
    · rw [Connection.isOpened, Connection.isOpened, hphase, hphase']
    · rw [hphase'] at hrow
      cases hrow
      exact mem_of_findById (hreplies lastId hphase).symm
  | ends hreply hclosed hphase hrests =>
    have hopened' : c'.isOpened = false := by
      rw [Connection.isOpened, hphase]
    rw [watch_of_ends hreply hphase]
    refine h.rests hrests (hopened'.trans hclosed.symm) fun row hrow => ?_
    rw [hphase] at hrow
    cases hrow
  | @begins i now visible _ _ hphase hopened htick hcursor =>
    -- the cursor is the place of the row that was found, or a millisecond of the clock
    have hplace : ∃ first, cursorPlace c'.cursor = some first ∧ Reached tenantId db first := by
      rw [hcursor]
      cases visible with
      | some row =>
        obtain ⟨p, hmem, rfl⟩ := h.found row hphase
        exact ⟨place p, cursorPlace_toRow (id_lt hbase.tables hmem), .inl ⟨p, hmem, rfl⟩⟩
      | none =>
        obtain ⟨ms, rfl, hle⟩ := hreplies
        exact ⟨_, if_pos rfl, .inr ⟨ms, hle, rfl⟩⟩
    obtain ⟨first, hfirst, hreached⟩ := hplace
    have hwas : c.isOpened = false := isOpened_of_phase_now hphase
    have hnone : r.start = none := by
      cases hstart : r.start with
      | none => rfl
      | some start =>
        have hopen := (h.streams start hstart).isOpened
        rw [hwas] at hopen
        cases hopen
    obtain ⟨-, hidle, -, hpassed⟩ := h.waits hnone
    have hwatch : r.watch (.nowReply i (some now)) before after c c' =
        { r with start := some c'.cursor } := if_pos hopened
    rw [hwatch]
    refine ⟨fun hfalse => (by cases hfalse), fun row hrow => ?_, fun start hstart => ?_⟩
    · rw [Connection.isOpened, hrow] at hopened
      cases hopened
    · cases hstart
      refine ⟨hopened, first, first, [], hfirst, hfirst, hreached, hreached, Follows.begin _ _,
        ?_, ?_⟩
      · rw [hpassed]
        rfl
      · rw [htick, hidle]
        exact List.nil_prefix
  | @lists i reply _ _ hlisting htick hcursor hphase =>
    have hbusy : c.tick ≠ .idle := by
      rw [hlisting]
      exact fun hidle => by cases hidle
    obtain ⟨start, hstart⟩ := h.begun (.inr (.inr hbusy))
    refine h.continues hstart (isOpened_eq hphase) hcursor fun from_ hfrom _ => ?_
    rw [htick]
    cases reply with
    | none => exact List.nil_prefix
    | some rows =>
      obtain ⟨limit, hrows⟩ := hreplies
      rw [listSince_eq hbase.ordered, hfrom, Option.map_some] at hrows
      cases hrows
      exact (List.take_prefix _ _).map _
  | stops hturns hbusy hidle hcursor hphase =>
    have hnone : passedRow c c' = none := by
      unfold passedRow
      rw [hidle]
      split <;> first | rfl | contradiction
    rw [watch_of_turns hturns, hnone]
    obtain ⟨start, hstart⟩ := h.begun (.inr (.inr hbusy))
    refine h.continues hstart (isOpened_eq hphase) hcursor fun from_ _ _ => ?_
    rw [hidle]
    exact List.nil_prefix
  | projects hturns hrows hprojecting hcursor hphase =>
    have hnone : passedRow c c' = none := by
      rw [passedRow, hrows, hprojecting]
    have hbusy : c.tick ≠ .idle := by
      rw [hrows]
      exact fun hidle => by cases hidle
    rw [watch_of_turns hturns, hnone]
    obtain ⟨start, hstart⟩ := h.begun (.inr (.inr hbusy))
    refine h.continues hstart (isOpened_eq hphase) hcursor fun from_ _ hleft => ?_
    rw [hprojecting]
    rw [hrows] at hleft
    exact hleft
  | @passes _ _ _ row rest hturns hhead htick hcursor hphase =>
    have hsome : passedRow c c' = some row := by
      unfold passedRow
      rcases hhead with hrows | hprojecting
      · rw [hrows, htick]
      · rw [hprojecting, htick]
    have hbusy : c.tick ≠ .idle := by
      intro hidle
      rcases hhead with hrows | hprojecting
      · rw [hidle] at hrows
        cases hrows
      · rw [hidle] at hprojecting
        cases hprojecting
    have hleft : left c.tick = row :: rest := by
      rcases hhead with hrows | hprojecting
      · rw [hrows]
        rfl
      · rw [hprojecting]
        rfl
    rw [watch_of_turns hturns, hsome]
    exact h.passes hbase hleft hbusy (by rw [htick]; rfl) hcursor (isOpened_eq hphase) _

variable {policy : Policy} {ports : Ports} {s t : State}

theorem serve_at (hserve : serve ports s label = some t) {i : Nat}
    (hc : s.service.connections[i]? = some c) (hr : s.readers[i]? = some r) :
    ∃ c' r', t.service.connections[i]? = some c' ∧ t.readers[i]? = some r' ∧
      (Rests c c' ∧ c'.phase = c.phase ∧ r' = r ∨ label.about = some i ∧ Moves label c c' ∧
        r' = r.watch label s.service t.service c c') := by
  obtain ⟨service, hstep, rfl⟩ := Option.map_eq_some_iff.mp hserve
  have hlt := (List.getElem?_eq_some_iff.mp hc).1
  have hlt' := (List.getElem?_eq_some_iff.mp hr).1
  cases habout : label.about with
  | some j =>
    obtain ⟨d, d', hd, hset, hmoves⟩ := step_moves habout hstep
    by_cases hij : j = i
    · subst hij
      rw [hc] at hd
      cases hd
      have hd' : service.connections[j]? = some d' := by
        rw [hset, List.getElem?_set_self hlt]
      refine ⟨d', _, hd', ?_, .inr ⟨rfl, hmoves, rfl⟩⟩
      simp only [watch, habout, hr, hc, hd']
      exact List.getElem?_set_self hlt'
    · refine ⟨c, r, ?_, ?_, .inl ⟨Rests.refl c, rfl, rfl⟩⟩
      · rw [hset, List.getElem?_set_ne hij, hc]
      · simp only [watch, habout]
        split
        · rw [List.getElem?_set_ne hij, hr]
        · exact hr
  | none =>
    have hreaders : (watch label s.service service s.readers)[i]? = some r := by
      simp only [watch, habout]
      split
      · rw [List.getElem?_append_left hlt', hr]
      · exact hr
    cases label with
    | openStream headers options =>
      cases hstep
      refine ⟨c, r, ?_, hreaders, .inl ⟨Rests.refl c, rfl, rfl⟩⟩
      have hadmits := @openStream_admits ports s.service headers options
      rcases hadmits with hsame | ⟨d, hadded, -⟩
      · rw [hsame, hc]
      · rw [hadded, List.getElem?_append_left hlt, hc]
    | destroy =>
      obtain ⟨c', hc', hrests, hphase⟩ := (destroy_rests hstep).2 i c hc
      exact ⟨c', r, hc', hreaders, .inl ⟨hrests, hphase, rfl⟩⟩
    | _ => cases habout

/-- As many connections have been seen as there are; a new one has just been admitted. -/
theorem serve_new (hserve : serve ports s label = some t)
    (hlength : s.readers.length = s.service.connections.length) :
    t.readers.length = t.service.connections.length ∧
      ∀ (i : Nat) c, s.service.connections.length ≤ i → t.service.connections[i]? = some c →
        i = s.service.connections.length ∧ t.readers[i]? = some {} ∧
          ∃ headers options, label = .openStream headers options ∧ Admitted headers c := by
  obtain ⟨service, hstep, rfl⟩ := Option.map_eq_some_iff.mp hserve
  -- an event that keeps the number of connections adds none
  have hnone : service.connections.length = s.service.connections.length → ∀ (i : Nat) c,
      s.service.connections.length ≤ i → service.connections[i]? = some c → False := by
    intro hsame i c hle hc
    have hlt := (List.getElem?_eq_some_iff.mp hc).1
    omega
  cases habout : label.about with
  | some j =>
    obtain ⟨d, d', hd, hset, -⟩ := step_moves habout hstep
    have hsame : service.connections.length = s.service.connections.length := by
      rw [hset, List.length_set]
    refine ⟨?_, fun i c hle hc => (hnone hsame i c hle hc).elim⟩
    simp only [watch, habout]
    split
    · rw [List.length_set, hlength, hsame]
    · rw [hlength, hsame]
  | none =>
    simp only [watch, habout]
    cases label with
    | openStream headers options =>
      cases hstep
      have hadmits := @openStream_admits ports s.service headers options
      rcases hadmits with hsame | ⟨d, hadded, hadmitted⟩
      · rw [hsame, if_neg (Nat.lt_irrefl _)]
        exact ⟨hlength, fun i c hle hc => (hnone (congrArg List.length hsame) i c hle
          (hsame.symm ▸ hc)).elim⟩
      · rw [hadded, if_pos (by rw [List.length_append, List.length_singleton]; omega)]
        refine ⟨by rw [List.length_append, List.length_append, hlength]; rfl, fun i c hle hc => ?_⟩
        rcases getElem?_concat_cases hc with ⟨hi, rfl⟩ | ⟨-, hold⟩
        · refine ⟨hi, ?_, headers, options, rfl, hadmitted⟩
          rw [hi, ← hlength, List.getElem?_concat_length]
        · have hlt := (List.getElem?_eq_some_iff.mp hold).1
          omega
    | destroy =>
      have hsame := (destroy_rests hstep).1
      rw [if_neg (by omega)]
      exact ⟨hlength.trans hsame.symm, fun i c hle hc => (hnone hsame i c hle hc).elim⟩
    | _ => cases habout

/-- A step is one of the tables, or an event of the service whose reply comes from the tables. -/
theorem step_cases {label : Label} (hstep : step policy ports tenantId s label = some t) :
    (t.service = s.service ∧ t.readers = s.readers) ∨
      ∃ m label', m.service = s.service ∧ m.readers = s.readers ∧ serve ports m label' = some t ∧
        ∀ i c, label'.about = some i → s.service.connections[i]? = some c →
          Replies tenantId t.db c label' := by
  cases label with
  | clock tx reading =>
    rw [step] at hstep
    unfold enter at hstep
    simp only at hstep
    split at hstep
    · cases hstep
      exact .inl ⟨rfl, rfl⟩
    · split at hstep
      · cases hstep
        exact .inl ⟨rfl, rfl⟩
      · cases hstep
  | insert tx now event =>
    obtain ⟨writer, -, hmoved⟩ := Option.bind_eq_some_iff.mp hstep
    split at hmoved
    · cases hmoved
      exact .inl ⟨rfl, rfl⟩
    · cases hmoved
  | commit tx =>
    obtain ⟨writer, -, hmoved⟩ := Option.bind_eq_some_iff.mp hstep
    split at hmoved
    · cases hmoved
      exact .inl ⟨rfl, rfl⟩
    · cases hmoved
  | rollback tx =>
    obtain ⟨writer, -, hmoved⟩ := Option.bind_eq_some_iff.mp hstep
    split at hmoved
    · cases hmoved
      exact .inl ⟨rfl, rfl⟩
    · cases hmoved
  | draw order =>
    rw [step] at hstep
    split at hstep
    · cases hstep
      exact .inl ⟨rfl, rfl⟩
    · cases hstep
  | otherPreflight reading =>
    rw [step] at hstep
    split at hstep
    · cases hstep
      exact .inl ⟨rfl, rfl⟩
    · cases hstep
  | service label =>
    rw [step] at hstep
    split at hstep
    case isTrue hown =>
      refine .inr ⟨s, label, rfl, rfl, hstep, fun i c _ _ => ?_⟩
      cases label <;> trivial
    case isFalse => cases hstep
  | find index succeeds =>
    obtain ⟨d, hd, hmoved⟩ := Option.bind_eq_some_iff.mp hstep
    split at hmoved
    case h_1 lastId hphase =>
      refine .inr ⟨s, _, rfl, rfl, hmoved, fun i c habout hc => ?_⟩
      cases habout
      rw [hd] at hc
      cases hc
      cases succeeds with
      | true =>
        intro lastId' hphase'
        rw [hphase] at hphase'
        cases hphase'
        rw [(serve_tables hmoved).1]
      | false => trivial
    case h_2 => cases hmoved
  | preflight index reading succeeds =>
    rw [step] at hstep
    split at hstep
    · split at hstep
      case isTrue hnone =>
        refine .inr ⟨{ s with db := tick s.db tenantId reading }, _, rfl, rfl, hstep,
          fun i c _ _ => ⟨_, rfl, ?_⟩⟩
        rw [(serve_tables hstep).1, reachedMs_tick]
      case isFalse => cases hstep
    · exact .inr ⟨s, _, rfl, rfl, hstep, fun i c _ _ => trivial⟩
  | list index succeeds =>
    obtain ⟨d, hd, hmoved⟩ := Option.bind_eq_some_iff.mp hstep
    refine .inr ⟨s, _, rfl, rfl, hmoved, fun i c habout hc => ?_⟩
    cases habout
    rw [hd] at hc
    cases hc
    rw [(serve_tables hmoved).1]
    cases hlist : listSince s.db tenantId d.cursor d.settings.batchSize.num.toNat with
    | none => cases succeeds <;> trivial
    | some rows =>
      cases succeeds with
      | true => exact ⟨_, hlist⟩
      | false => trivial

structure Inv (tenantId : String) (s : State) : Prop where
  holds : Holds tenantId s
  /-- All connections are seen. -/
  length : s.readers.length = s.service.connections.length
  sees : ∀ (i : Nat) c r, s.service.connections[i]? = some c → s.readers[i]? = some r →
    Sees tenantId s.db c r

theorem sees_admitted {headers : List (String × HeaderValue)} (h : Admitted headers c) :
    Sees tenantId db c {} where
  waits _ := ⟨h.isOpened, h.tick, h.schedules, rfl⟩
  found row hrow := by
    rcases h.phase with ⟨hreturned, -⟩ | hwaits
    · rw [hreturned] at hrow
      cases hrow
    · rw [hwaits] at hrow
      split at hrow <;> cases hrow
  streams start hstart := by cases hstart

theorem Inv.step (h : Inv tenantId s) {label : Label}
    (hstep : OutboxStreams.step policy ports tenantId s label = some t) : Inv tenantId t := by
  obtain ⟨hholds, hgrows⟩ := h.holds.step hstep
  rcases step_cases hstep with
    ⟨hservice, hreaders⟩ | ⟨m, label', hservice, hreaders, hserve, hreplies⟩
  · refine ⟨hholds, ?_, fun i c r hc hr => ?_⟩
    · rw [hservice, hreaders, h.length]
    · rw [hservice] at hc
      rw [hreaders] at hr
      exact (h.sees i c r hc hr).grow hholds.base hgrows
  · have hlength : m.readers.length = m.service.connections.length := by
      rw [hservice, hreaders, h.length]
    obtain ⟨hlength', hnew⟩ := serve_new hserve hlength
    refine ⟨hholds, hlength', fun i c' r' hc' hr' => ?_⟩
    by_cases hlt : i < m.service.connections.length
    · -- a connection that was there
      obtain ⟨c, hc⟩ : ∃ c, m.service.connections[i]? = some c :=
        ⟨_, List.getElem?_eq_getElem hlt⟩
      obtain ⟨r, hr⟩ : ∃ r, m.readers[i]? = some r :=
        ⟨_, List.getElem?_eq_getElem (hlength.symm ▸ hlt)⟩
      obtain ⟨d, q, hd, hq, hcases⟩ := serve_at hserve hc hr
      rw [hc'] at hd
      rw [hr'] at hq
      cases hd
      cases hq
      rw [hservice] at hc
      rw [hreaders] at hr
      have hsees := (h.sees i _ _ hc hr).grow hholds.base hgrows
      rcases hcases with ⟨hrests, hphase, rfl⟩ | ⟨habout, hmoves, rfl⟩
      · exact hsees.rests hrests (isOpened_eq hphase) fun row hrow =>
          hsees.found row (hphase ▸ hrow)
      · exact hsees.moves hholds.base hmoves (hreplies i _ habout hc) _ _
    · obtain ⟨-, hempty, headers, options, -, hadmitted⟩ := hnew i c' (Nat.le_of_not_lt hlt) hc'
      rw [hr'] at hempty
      cases hempty
      exact sees_admitted hadmitted

end Stynx.OutboxStreams
