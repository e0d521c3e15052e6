import Stynx.OutboxStreamRuns

/-!
# The law of the event streams

Streams pass the log of their tenant in its order, also across reconnections.
-/

namespace Stynx.OutboxStreams

open CursorLogs EventStream OutboxTables TransitionRuns

variable {tenantId : String} {db : Db} {policy : Policy} {ports : Ports} {s t : State}
  {c c' : Connection} {r : Reader}

/-- A connection with the identifier of a row resumes after it, if it does not return before. -/
structure Resumes (row : Row) (c : Connection) (r : Reader) : Prop where
  /-- Its stream begins after the row. -/
  start : ∀ start, r.start = some start → start = row.toCursor
  /-- Before it begins, it asks for the row or has found it. -/
  waits : r.start = none →
    c.phase = .findById row.id ∨ c.phase = .now (some row) ∨ c.phase = .returned

variable {row : Row} {label : EventStream.Label} {i : Nat} {labels : List Label}

theorem Resumes.of_start (h : Resumes row c r) {r' : Reader} {start : Cursor}
    (hstart : r.start = some start) (hsame : r'.start = r.start) : Resumes row c' r' where
  start other hother := h.start other (hsame ▸ hother)
  waits hnone := by
    rw [hsame, hstart] at hnone
    cases hnone

theorem watch_start (h : label.turns = true) (before after : EventStream.State) (c c' : Connection)
    (r : Reader) :
    (r.watch label before after c c').start = r.start := by
  rw [watch_of_turns h]
  split <;> rfl

variable {p : Nat × Event}

theorem Resumes.moves {db : Db} (h : Resumes (toRow p) c r) (hsees : Sees tenantId db c r)
    (hbase : Base tenantId db) (hmem : p ∈ log db tenantId) (hmoves : Moves label c c')
    (hreplies : Replies tenantId db c label) (before after : EventStream.State) :
    Resumes (toRow p) c' (r.watch label before after c c') := by
  -- what happens before a stream begins, happens to one that has not begun
  have hwaiting : c.isOpened = false → r.start = none := by
    intro hclosed
    cases hstart : r.start with
    | none => rfl
    | some start =>
      have hopen := (hsees.streams start hstart).isOpened
      rw [hclosed] at hopen
      cases hopen
  cases hmoves with
  | rests hquiet hrests hphase =>
    rw [watch_of_quiet hquiet]
    exact ⟨h.start, fun hnone => hphase.symm ▸ h.waits hnone⟩
  | works hquiet hruns hopened hcursor htick =>
    rw [watch_of_quiet hquiet]
    obtain ⟨start, hstart⟩ := hsees.begun (hruns.imp_right .inl)
    exact h.of_start hstart rfl
  | @finds i visible lastId _ _ hphase hphase' hrests =>
    have hnone := hwaiting (isOpened_of_phase_findById hphase)
    refine ⟨h.start, fun _ => .inr (.inl ?_)⟩
    have hid : lastId = (toRow p).id := by
      rcases h.waits hnone with hfind | hnow | hreturned
      · rw [hphase] at hfind
        exact Phase.findById.inj hfind
      · rw [hphase] at hnow
        cases hnow
      · rw [hphase] at hreturned
        cases hreturned
    rw [hphase', hreplies lastId hphase, hid]
    exact congrArg Phase.now (hbase.findById_text hmem)
  | ends hreply hclosed hphase hrests =>
    rw [watch_of_ends hreply hphase]
    exact ⟨h.start, fun _ => .inr (.inr hphase)⟩
  | @begins i now visible _ _ hphase hopened htick hcursor =>
    have hnone := hwaiting (isOpened_of_phase_now hphase)
    have hvisible : visible = some (toRow p) := by
      rcases h.waits hnone with hfind | hnow | hreturned
      · rw [hphase] at hfind
        cases hfind
      · rw [hphase] at hnow
        exact Phase.now.inj hnow
      · rw [hphase] at hreturned
        cases hreturned
    have hwatch : r.watch (.nowReply i (some now)) before after c c' =
        { r with start := some c'.cursor } := if_pos hopened
    rw [hwatch]
    refine ⟨fun start hstart => ?_, fun hfalse => by cases hfalse⟩
    cases hstart
    rw [hcursor, hvisible]
    rfl
  | @lists i reply _ _ hlisting htick hcursor hphase =>
    have hbusy : c.tick ≠ .idle := by
      rw [hlisting]
      exact fun hidle => by cases hidle
    obtain ⟨start, hstart⟩ := hsees.begun (.inr (.inr hbusy))
    exact h.of_start hstart rfl
  | stops hturns hbusy hidle hcursor hphase =>
    obtain ⟨start, hstart⟩ := hsees.begun (.inr (.inr hbusy))
    exact h.of_start hstart (watch_start hturns _ _ _ _ _)
  | projects hturns hrows hprojecting hcursor hphase =>
    have hbusy : c.tick ≠ .idle := by
      rw [hrows]
      exact fun hidle => by cases hidle
    obtain ⟨start, hstart⟩ := hsees.begun (.inr (.inr hbusy))
    exact h.of_start hstart (watch_start hturns _ _ _ _ _)
  | @passes _ _ _ row rest hturns hhead htick hcursor hphase =>
    have hbusy : c.tick ≠ .idle := by
      intro hidle
      rcases hhead with hrows | hprojecting
      · rw [hidle] at hrows
        cases hrows
      · rw [hidle] at hprojecting
        cases hprojecting
    obtain ⟨start, hstart⟩ := hsees.begun (.inr (.inr hbusy))
    exact h.of_start hstart (watch_start hturns _ _ _ _ _)

/-- What holds of a connection that has come with the identifier of an event. -/
structure Resuming (tenantId : String) (p : Nat × Event) (i : Nat) (s : State) : Prop where
  inv : Inv tenantId s
  /-- The event is committed. -/
  mem : p ∈ log s.db tenantId
  resumes : ∃ c r, s.service.connections[i]? = some c ∧ s.readers[i]? = some r ∧
    Resumes (toRow p) c r

theorem Resuming.step (h : Resuming tenantId p i s) {label : Label}
    (hstep : OutboxStreams.step policy ports tenantId s label = some t) :
    Resuming tenantId p i t := by
  obtain ⟨hholds, hgrows⟩ := h.inv.holds.step hstep
  obtain ⟨new, hlog, -⟩ := hgrows.log
  have hmem : p ∈ log t.db tenantId := hlog ▸ List.mem_append_left _ h.mem
  refine ⟨h.inv.step hstep, hmem, ?_⟩
  obtain ⟨c, r, hc, hr, hresumes⟩ := h.resumes
  rcases step_cases hstep with
    ⟨hservice, hreaders⟩ | ⟨m, label', hservice, hreaders, hserve, hreplies⟩
  · exact ⟨c, r, hservice ▸ hc, hreaders ▸ hr, hresumes⟩
  · obtain ⟨c', r', hc', hr', hcases⟩ := serve_at hserve (hservice.symm ▸ hc) (hreaders.symm ▸ hr)
    refine ⟨c', r', hc', hr', ?_⟩
    rcases hcases with ⟨-, hphase, rfl⟩ | ⟨habout, hmoves, rfl⟩
    · exact ⟨hresumes.start, fun hnone => hphase.symm ▸ hresumes.waits hnone⟩
    · have hsees := (h.inv.sees i c r hc hr).grow hholds.base hgrows
      exact hresumes.moves hsees hholds.base hmem hmoves (hreplies i c habout hc) _ _

theorem digit_safe : ∀ k : Fin 16, (Nat.digitChar k).val < 0x10000 ∧ Nat.digitChar k ≠ '\r' ∧
    Nat.digitChar k ≠ '\n' ∧ Nat.digitChar k ≠ '\x00' := by decide

theorem safeLine_text (n : Nat) : safeLine (UuidTexts.text n) = true := by
  have hsafe : ∀ c ∈ (UuidTexts.text n).toList, c.val < 0x10000 ∧ c ≠ '\r' ∧ c ≠ '\n' ∧
      c ≠ '\x00' := by
    intro c hc
    rcases UuidTexts.mem_text hc with rfl | ⟨k, rfl⟩
    · decide
    · exact digit_safe k
  have hlength : utf16Length (UuidTexts.text n) = 36 := by
    have hones : ((UuidTexts.text n).toList.map fun c => if 0x10000 ≤ c.val then 2 else 1) =
        List.replicate 36 1 := by
      refine List.eq_replicate_iff.mpr ⟨by rw [List.length_map, UuidTexts.length_text], ?_⟩
      intro unit hunit
      obtain ⟨c, hc, rfl⟩ := List.mem_map.mp hunit
      exact if_neg (UInt32.not_le.mpr (hsafe c hc).1)
    rw [utf16Length, hones]
    rfl
  rw [safeLine, hlength]
  simp only [Bool.and_eq_true, decide_eq_true_eq, List.all_eq_true]
  refine ⟨by decide, fun c hc => ?_⟩
  obtain ⟨-, hr, hn, hz⟩ := hsafe c hc
  exact ⟨⟨hr, hn⟩, hz⟩

theorem Resuming.of_open (h : Inv tenantId s) (hmem : p ∈ log s.db tenantId)
    {headers : List (String × HeaderValue)} {options : Options}
    (hheader : header headers "last-event-id" = (true, some (toRow p).id))
    (hstep : OutboxStreams.step policy ports tenantId s
      (.service (.openStream headers options)) = some t)
    (hadmitted : s.service.connections.length < t.service.connections.length) :
    Resuming tenantId p s.service.connections.length t := by
  obtain ⟨-, hgrows⟩ := h.holds.step hstep
  obtain ⟨new, hlog, -⟩ := hgrows.log
  refine ⟨h.step hstep, hlog ▸ List.mem_append_left _ hmem, ?_⟩
  rw [OutboxStreams.step] at hstep
  split at hstep
  case isFalse => cases hstep
  case isTrue =>
    obtain ⟨c, hc⟩ : ∃ c, t.service.connections[s.service.connections.length]? = some c :=
      ⟨_, List.getElem?_eq_getElem hadmitted⟩
    obtain ⟨-, hnew⟩ := serve_new hstep h.length
    obtain ⟨-, hr, headers', options', heq, hnewest⟩ := hnew _ c le_rfl hc
    cases heq
    refine ⟨c, {}, hc, hr, fun _ hstart => (by cases hstart), fun _ => .inl ?_⟩
    have hphase := hnewest.phase
    rw [hheader] at hphase
    rcases hphase with ⟨-, hunsafe⟩ | hwaits
    · rw [Option.any_some, toRow, safeLine_text] at hunsafe
      cases hunsafe
    · exact hwaits

theorem Resuming.begins (h : Resuming tenantId p i s) (hc : s.service.connections[i]? = some c)
    (hthere : c.disconnected = false) {reading : Nat}
    (hwindow : (((clockValue s.db.tenantClock tenantId reading : Nat) - (toRow p).createdAt : Int) :
      ℚ) ≤ c.settings.replayWindowMs)
    (hstep : OutboxStreams.step policy ports tenantId s (.preflight i reading true) = some t) :
    ∃ r, t.readers[i]? = some r ∧ r.start = some (toRow p).toCursor := by
  obtain ⟨c', r, hc', hr, hresumes⟩ := h.resumes
  rw [hc] at hc'
  cases hc'
  rw [OutboxStreams.step, if_pos rfl] at hstep
  split at hstep
  case isFalse => cases hstep
  case isTrue =>
    obtain ⟨service, hreply, rfl⟩ := Option.map_eq_some_iff.mp hstep
    obtain ⟨d, hd, hmoved⟩ := Option.bind_eq_some_iff.mp hreply
    rw [hc] at hd
    cases hd
    split at hmoved
    case h_2 => cases hmoved
    case h_1 visible hphase =>
      have hclosed : c.isOpened = false := isOpened_of_phase_now hphase
      -- the stream has not begun, so the row was found
      have hnone : r.start = none := by
        cases hstart : r.start with
        | none => rfl
        | some start =>
          have hopen := ((h.inv.sees i c r hc hr).streams start hstart).isOpened
          rw [hclosed] at hopen
          cases hopen
      have hvisible : visible = some (toRow p) := by
        rcases hresumes.waits hnone with hfind | hnow | hreturned
        · rw [hphase] at hfind
          cases hfind
        · rw [hphase] at hnow
          exact Phase.now.inj hnow
        · rw [hphase] at hreturned
          cases hreturned
      rw [hvisible, nowReply_of_within (not_lt.mpr hwindow) hthere] at hmoved
      cases hmoved
      have hlt := (List.getElem?_eq_some_iff.mp hc).1
      have hlt' := (List.getElem?_eq_some_iff.mp hr).1
      have hbegun : ((s.service.connections.set i { c with
          phase := .opening (openingCalls ports c.settings)
          cursor := (toRow p).toCursor
          response := { c.response with statusCode := 200 } })[i]?) = some { c with
          phase := .opening (openingCalls ports c.settings)
          cursor := (toRow p).toCursor
          response := { c.response with statusCode := 200 } } := List.getElem?_set_self hlt
      refine ⟨{ r with start := some (toRow p).toCursor }, ?_, rfl⟩
      simp only [watch, EventStream.Label.about, hr, hc, beginStream, hbegun]
      exact List.getElem?_set_self hlt'

/-- Tables of a tenant with which a run begins. -/
structure Start (tenantId : String) where
  db : Db
  base : Base tenantId db

/-- The service has no connection yet, and nothing is being appended. -/
def Start.state (start : Start tenantId) : State := { db := start.db }

theorem Start.inv (start : Start tenantId) : Inv tenantId start.state where
  holds := ⟨start.base, fun _ hnone => by cases hnone⟩
  length := rfl
  sees i c r hc := by cases hc

theorem Start.inv_run (start : Start tenantId)
    (hrun : run (step policy ports tenantId) start.state labels = some s) : Inv tenantId s :=
  run_invariant (I := Inv tenantId) (fun _ _ _ h hstep => h.step hstep) start.inv hrun

def After (cursor : Cursor) (p : Nat × Event) : Prop :=
  ∃ from_, cursorPlace cursor = some from_ ∧ from_ < place p

/-- A stream has passed the first of the rows after its first cursor, in their order and each once.
-/
def PassesInOrder (tenantId : String) (s : State) : Prop :=
  ∀ (i : Nat) r start, s.readers[i]? = some r → r.start = some start →
    ∃ first, cursorPlace start = some first ∧
      r.passed.map Prod.fst <+: rowsSince s.db tenantId first ∧ (r.passed.map Prod.fst).Nodup

/-- What is committed between two states comes after all that was committed or passed, and after the
first cursors of the streams that had begun. -/
def CommitsAfter (tenantId : String) (s t : State) : Prop :=
  ∃ new, log t.db tenantId = log s.db tenantId ++ new ∧ ∀ p ∈ new,
    (∀ q ∈ log s.db tenantId, place q < place p) ∧
      ∀ r ∈ s.readers, (∀ start, r.start = some start → After start p) ∧
        ∀ row how, (row, how) ∈ r.passed → After row.toCursor p

/-- A connection admitted with the identifier of a row begins with its cursor or not at all, and
does begin when the client is there and the clock is inside the replay window. -/
def GoesOnAfter (policy : Policy) (ports : Ports) (tenantId : String) (s : State) (row : Row) :
    Prop :=
  ∀ headers options labels t u, header headers "last-event-id" = (true, some row.id) →
    step policy ports tenantId s (.service (.openStream headers options)) = some t →
    s.service.connections.length < t.service.connections.length →
    run (step policy ports tenantId) t labels = some u →
    ∃ c r, u.service.connections[s.service.connections.length]? = some c ∧
      u.readers[s.service.connections.length]? = some r ∧
      (∀ start, r.start = some start → start = row.toCursor) ∧
      ∀ reading v, c.disconnected = false →
        (((clockValue u.db.tenantClock tenantId reading : Nat) - row.createdAt : Int) : ℚ)
          ≤ c.settings.replayWindowMs →
        step policy ports tenantId u (.preflight s.service.connections.length reading true) =
          some v →
        ∃ r', v.readers[s.service.connections.length]? = some r' ∧ r'.start = some row.toCursor

theorem rowsSince_nodup (hbase : Base tenantId db) (from_ : Place) :
    (rowsSince db tenantId from_).Nodup := by
  have hordered : (since place (log db tenantId) from_).Pairwise fun p q => place p < place q :=
    List.Pairwise.filter _ hbase.ordered
  refine List.pairwise_map.mpr (hordered.imp_of_mem fun {p q} hp hq hlt heq => ?_)
  have hp' := cursorPlace_toRow (id_lt hbase.tables (mem_since.mp hp).1)
  have hq' := cursorPlace_toRow (id_lt hbase.tables (mem_since.mp hq).1)
  rw [heq, hq'] at hp'
  exact hlt.ne (Option.some.inj hp').symm

theorem Inv.passesInOrder (h : Inv tenantId s) : PassesInOrder tenantId s := by
  intro i r start hr hstart
  have hlt := (List.getElem?_eq_some_iff.mp hr).1
  obtain ⟨c, hc⟩ : ∃ c, s.service.connections[i]? = some c :=
    ⟨_, List.getElem?_eq_getElem (h.length ▸ hlt)⟩
  obtain ⟨-, first, from_, passed, hfirst, -, -, -, hfollows, hrows, -⟩ :=
    (h.sees i c r hc hr).streams start hstart
  have hprefix : r.passed.map Prod.fst <+: rowsSince s.db tenantId first := by
    rw [hrows]
    exact hfollows.isPrefix.map _
  exact ⟨first, hfirst, hprefix, hprefix.sublist.nodup (rowsSince_nodup h.holds.base first)⟩

theorem Inv.mem_of_passed (h : Inv tenantId s) {r : Reader} (hr : r ∈ s.readers) {how : Fate}
    (hpassed : (row, how) ∈ r.passed) : ∃ p ∈ log s.db tenantId, row = toRow p := by
  obtain ⟨i, hlt, hget⟩ := List.mem_iff_getElem.mp hr
  have hr' : s.readers[i]? = some r := by rw [List.getElem?_eq_getElem hlt, hget]
  obtain ⟨c, hc⟩ : ∃ c, s.service.connections[i]? = some c :=
    ⟨_, List.getElem?_eq_getElem (h.length ▸ hlt)⟩
  cases hstart : r.start with
  | none =>
    obtain ⟨-, -, -, hempty⟩ := (h.sees i c r hc hr').waits hstart
    rw [hempty] at hpassed
    cases hpassed
  | some start =>
    obtain ⟨first, -, hprefix, -⟩ := h.passesInOrder i r start hr' hstart
    have hmem := hprefix.subset (List.mem_map_of_mem (f := Prod.fst) hpassed)
    obtain ⟨p, hp, heq⟩ := List.mem_map.mp hmem
    exact ⟨p, (mem_since.mp hp).1, heq.symm⟩

theorem Inv.commitsAfter (h : Inv tenantId s)
    (hrun : run (OutboxStreams.step policy ports tenantId) s labels = some t) :
    CommitsAfter tenantId s t := by
  obtain ⟨hholds, hgrows⟩ := h.holds.run hrun
  obtain ⟨new, hlog, hms⟩ := hgrows.log
  have hordered := hholds.base.ordered
  refine ⟨new, hlog, fun p hp => ?_⟩
  have hold : ∀ q ∈ log s.db tenantId, place q < place p := by
    intro q hq
    rw [hlog] at hordered
    exact hordered.lt_of_append hq hp
  refine ⟨hold, fun r hr => ⟨fun start hstart => ?_, fun row how hpassed => ?_⟩⟩
  · obtain ⟨i, hlt, hget⟩ := List.mem_iff_getElem.mp hr
    obtain ⟨c, hc⟩ : ∃ c, s.service.connections[i]? = some c :=
      ⟨_, List.getElem?_eq_getElem (h.length ▸ hlt)⟩
    have hr' : s.readers[i]? = some r := by rw [List.getElem?_eq_getElem hlt, hget]
    obtain ⟨-, first, -, -, hfirst, -, hreached, -⟩ := (h.sees i c r hc hr').streams start hstart
    exact ⟨first, hfirst, hreached.lt_new hordered hlog hms hp⟩
  · obtain ⟨q, hq, rfl⟩ := h.mem_of_passed hr hpassed
    exact ⟨place q, cursorPlace_toRow (id_lt h.holds.base.tables hq), hold q hq⟩

theorem Inv.goesOnAfter (h : Inv tenantId s) (hmem : p ∈ log s.db tenantId) :
    GoesOnAfter policy ports tenantId s (toRow p) := by
  intro headers options labels t u hheader hopen hadmitted hrun
  have hresuming : Resuming tenantId p s.service.connections.length u :=
    run_invariant (I := Resuming tenantId p s.service.connections.length)
      (fun _ _ _ hs hstep => hs.step hstep) (Resuming.of_open h hmem hheader hopen hadmitted) hrun
  obtain ⟨c, r, hc, hr, hresumes⟩ := hresuming.resumes
  exact ⟨c, r, hc, hr, hresumes.start, fun reading v hthere hwindow hstep =>
    hresuming.begins hc hthere hwindow hstep⟩

/-- The log is in its order, each stream has passed a beginning of what lies after its first cursor,
what is committed afterwards lies behind all of that, and a reconnection with the identifier of a
framed row goes on after the row. -/
theorem streams_follow_log (start : Start tenantId) (labels : List Label)
    (hrun : run (step policy ports tenantId) start.state labels = some s) :
    Ordered place (log s.db tenantId) ∧ PassesInOrder tenantId s ∧
      (∀ rest t, run (step policy ports tenantId) s rest = some t → CommitsAfter tenantId s t) ∧
      ∀ r ∈ s.readers, ∀ row, (row, .framed) ∈ r.passed →
        GoesOnAfter policy ports tenantId s row := by
  have hinv := start.inv_run hrun
  refine ⟨hinv.holds.base.ordered, hinv.passesInOrder, fun rest t hrest => hinv.commitsAfter hrest,
    fun r hr row hframed => ?_⟩
  obtain ⟨p, hmem, rfl⟩ := hinv.mem_of_passed hr hframed
  exact hinv.goesOnAfter hmem

def Start.empty (tenantId : String) : Start tenantId where
  db := .empty
  base :=
    { tables := OutboxDelivery.invariant_empty
      ordered := List.Pairwise.nil
      apart := fun _ _ _ hsome => by cases hsome }

/-- A transaction appends one event. -/
def appending (tx reading : Nat) (key : String) : List Label :=
  [.clock tx reading, .insert tx 0 ⟨"order", "7", key, "1", none⟩, .commit tx]

/-- A connection opens its stream. -/
def opening (i reading : Nat) : List Label :=
  .preflight i reading true :: List.replicate 8 (.service (.openingCall i false))

def framing (i : Nat) : List Label :=
  [.list i true, .service (.row i false), .service (.projected i (.payload "1") false),
    .service (.row i false)]

def oneStream : Options :=
  ⟨⟨some "acme", some "agent"⟩, none, none, none, none, none, none, none, none⟩

def secondRow : Row := ⟨⟨2000, "00000000-07d0-7000-8000-000000000002"⟩, "order"⟩

def thirdRow : Row := ⟨⟨2000, "00000000-07d0-7000-8000-000000000003"⟩, "order"⟩

/-- The client of a stream comes back with the identifier of a frame, and gets what follows it. -/
def reconnectingRun : List Label :=
  appending 1 1000 "a" ++ .service (.openStream [] oneStream) :: opening 0 2000 ++
    appending 2 500 "b" ++ .service (.tick 0) :: framing 0 ++
    [.service (.responseClose 0),
      .service (.openStream [("Last-Event-ID", .text secondRow.id)] oneStream), .find 1 true] ++
    appending 3 700 "c" ++ opening 1 1500 ++ framing 1

theorem streams_follow_log_reconnectingRun :
    ∃ s, run (step ⟨fun _ now => now, 30000, fun _ => true⟩ samplePorts "acme")
        (Start.empty "acme").state reconnectingRun = some s ∧
      (s.readers.map fun r => (r.start, r.passed)) =
        [(some ⟨2000, ""⟩, [(secondRow, .framed)]),
          (some secondRow.toCursor, [(thirdRow, .framed)])] ∧
      Ordered place (log s.db "acme") ∧ PassesInOrder "acme" s := by
  have hlast : (run (step ⟨fun _ now => now, 30000, fun _ => true⟩ samplePorts "acme")
      (Start.empty "acme").state reconnectingRun).map (fun s =>
        s.readers.map fun r => (r.start, r.passed)) =
      some [(some ⟨2000, ""⟩, [(secondRow, .framed)]),
        (some secondRow.toCursor, [(thirdRow, .framed)])] := by
    decide +kernel
  obtain ⟨s, hrun, hreaders⟩ := Option.map_eq_some_iff.mp hlast
  obtain ⟨hordered, hpasses, -, -⟩ := streams_follow_log (Start.empty "acme") reconnectingRun hrun
  exact ⟨s, hrun, hreaders, hordered, hpasses⟩

end Stynx.OutboxStreams
