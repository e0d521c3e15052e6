import Stynx.EventStreamRuns

/-!
# What an event does to a connection

Each event of the service is about one connection, but for a new one and the end of the
module. It leaves the loop over the rows alone, or takes one turn of it: the loop stops, waits
for a projection, or passes the row at its head and moves the cursor there.
-/

namespace Stynx.EventStream

/-- The loop, the cursor and the settings stay, and no schedule is added. -/
structure Rests (c c' : Connection) : Prop where
  tick : c'.tick = c.tick
  cursor : c'.cursor = c.cursor
  settings : c'.settings = c.settings
  schedules : c.schedules = [] → c'.schedules = []

theorem Rests.refl (c : Connection) : Rests c c := ⟨rfl, rfl, rfl, id⟩

theorem Rests.trans {a b c : Connection} (h : Rests a b) (h' : Rests b c) : Rests a c :=
  ⟨h'.tick.trans h.tick, h'.cursor.trans h.cursor, h'.settings.trans h.settings,
    fun hnone => h'.schedules (h.schedules hnone)⟩

def Label.replies : Label → Bool
  | .findReply _ _ | .nowReply _ _ => true
  | _ => false

/-- An event that leaves the loop alone, and is no reply to `now`. -/
def Label.quiet : Label → Bool
  | .findReply _ _ | .openingCall _ _ | .requestClose _ _ _ | .responseClose _ | .heartbeat _ _
  | .tick _ | .listReply _ _ => true
  | _ => false

def Label.turns : Label → Bool
  | .row _ _ | .projected _ _ _ => true
  | _ => false

/-- The cursor with which a stream begins. -/
def firstCursor (visible : Option Row) (now : Int) : Cursor :=
  match visible with
  | some row => row.toCursor
  | none => ⟨now, ""⟩

/-- What an event does to the connection that it is about. -/
inductive Moves : Label → Connection → Connection → Prop
  /-- Nothing that the loop or `open` sees. -/
  | rests {label' : Label} {c c' : Connection} : label'.quiet = true → Rests c c' →
    c'.phase = c.phase → Moves label' c c'
  /-- The opening block goes on, or a tick is started. -/
  | works {label' : Label} {c c' : Connection} : label'.quiet = true →
    c.isOpened = true ∨ c.schedules ≠ [] → c'.isOpened = c.isOpened → c'.cursor = c.cursor →
    c'.tick = c.tick ∨ c.tick = .idle ∧ c'.tick = .listing → Moves label' c c'
  | finds {i : Nat} {visible : Option Row} {lastId : String} {c c' : Connection} :
    c.phase = .findById lastId → c'.phase = .now visible → Rests c c' →
    Moves (.findReply i (some visible)) c c'
  | ends {label' : Label} {c c' : Connection} : label'.replies = true → c.isOpened = false →
    c'.phase = .returned → Rests c c' → Moves label' c c'
  | begins {i : Nat} {now : Int} {visible : Option Row} {c c' : Connection} :
    c.phase = .now visible → c'.isOpened = true → c'.tick = c.tick →
    c'.cursor = firstCursor visible now → Moves (.nowReply i (some now)) c c'
  | lists {i : Nat} {reply : Option (List Row)} {c c' : Connection} : c.tick = .listing →
    c'.tick = (reply.map Tick.rows).getD .idle → c'.cursor = c.cursor → c'.phase = c.phase →
    Moves (.listReply i reply) c c'
  | stops {label' : Label} {c c' : Connection} : label'.turns = true → c.tick ≠ .idle →
    c'.tick = .idle → c'.cursor = c.cursor → c'.phase = c.phase → Moves label' c c'
  /-- The row at its head waits for a projection. -/
  | projects {label' : Label} {c c' : Connection} {row : Row} {rest : List Row} :
    label'.turns = true → c.tick = .rows (row :: rest) → c'.tick = .projecting row rest →
    c'.cursor = c.cursor → c'.phase = c.phase → Moves label' c c'
  | passes {label' : Label} {c c' : Connection} {row : Row} {rest : List Row} :
    label'.turns = true → c.tick = .rows (row :: rest) ∨ c.tick = .projecting row rest →
    c'.tick = .rows rest → c'.cursor = row.toCursor → c'.phase = c.phase → Moves label' c c'

def Rewritten (s t : State) (i : Nat) (label : Label) : Prop :=
  ∃ c c', s.connections[i]? = some c ∧ t.connections = s.connections.set i c' ∧ Moves label c c'

variable {ports : Ports} {s t : State} {i : Nat} {c : Connection}

variable {label : Label} {u : State} {c' : Connection} {row : Row}

theorem rewritten_put (hc : s.connections[i]? = some c) (hu : u.connections = s.connections)
    (h : Moves label c c') : Rewritten s (u.put i c') i label := by
  refine ⟨c, c', hc, ?_, h⟩
  rw [State.put, hu]

theorem release_rests (s : State) (i : Nat) (c : Connection) :
    (release s i c).1.connections = s.connections ∧ Rests c (release s i c).2 ∧
      (release s i c).2.phase = c.phase := by
  rw [release_fst, release_snd]
  exact ⟨rfl, ⟨rfl, rfl, rfl, id⟩, rfl⟩

theorem cancelAll_nil_of_nil (throws : Schedule → Bool) {timers : List Timer} (h : timers = []) :
    (cancelAll throws timers).1 = [] := by
  rw [h]
  rfl

theorem close_rests (ports : Ports) (s : State) (i : Nat) (c : Connection) :
    (close ports s i c).1.connections = s.connections ∧ Rests c (close ports s i c).2.1 ∧
      (close ports s i c).2.1.phase = c.phase := by
  rw [close]
  split_ifs
  · exact ⟨rfl, Rests.refl c, rfl⟩
  · dsimp only
    split_ifs
    · exact ⟨rfl, ⟨rfl, rfl, rfl, cancelAll_nil_of_nil _⟩, rfl⟩
    · rw [release_fst, release_snd]
      exact ⟨rfl, ⟨rfl, rfl, rfl, cancelAll_nil_of_nil _⟩, rfl⟩

theorem isOpened_eq {c : Connection} (h : c'.phase = c.phase) : c'.isOpened = c.isOpened := by
  rw [Connection.isOpened, Connection.isOpened, h]

theorem markDisconnected_rests (s : State) (i : Nat) (c : Connection) :
    (markDisconnected s i c).1.connections = s.connections ∧ Rests c (markDisconnected s i c).2 ∧
      (markDisconnected s i c).2.phase = c.phase := by
  obtain ⟨hconnections, hrests, hphase⟩ := release_rests s i { c with disconnected := true }
  exact ⟨hconnections, ⟨hrests.tick, hrests.cursor, hrests.settings, hrests.schedules⟩, hphase⟩

theorem responseClosed_rests (ports : Ports) (s : State) (i : Nat) (c : Connection) :
    ∃ c', (responseClosed ports s i c).connections = s.connections.set i c' ∧ Rests c c' ∧
      c'.phase = c.phase := by
  obtain ⟨hconnections, hrests, hphase⟩ := markDisconnected_rests s i c
  rw [responseClosed]
  dsimp only
  split_ifs
  · obtain ⟨hconnections', hrests', hphase'⟩ := close_rests ports (markDisconnected s i c).1 i
      (markDisconnected s i c).2
    refine ⟨_, ?_, hrests.trans hrests', hphase'.trans hphase⟩
    rw [State.put, hconnections', hconnections]
  · refine ⟨_, ?_, hrests, hphase⟩
    rw [State.put, hconnections]

theorem requestClosed_rests (ports : Ports) (s : State) (i : Nat) (c : Connection)
    (complete aborted : Bool) :
    ∃ c', (requestClosed ports s i c complete aborted).connections = s.connections.set i c' ∧
      Rests c c' ∧ c'.phase = c.phase := by
  rw [requestClosed]
  split_ifs with hread
  · dsimp only
    split_ifs
    · obtain ⟨hconnections, hrests, hphase⟩ := close_rests ports s i c
      exact ⟨_, by rw [State.put, hconnections], hrests, hphase⟩
    · exact ⟨c, rfl, Rests.refl c, rfl⟩
  · obtain ⟨hconnections, hrests, hphase⟩ := markDisconnected_rests s i c
    dsimp only
    split_ifs
    · obtain ⟨hconnections', hrests', hphase'⟩ := close_rests ports (markDisconnected s i c).1 i
        (markDisconnected s i c).2
      refine ⟨_, ?_, hrests.trans hrests', hphase'.trans hphase⟩
      rw [State.put, hconnections', hconnections]
    · refine ⟨_, ?_, hrests, hphase⟩
      rw [State.put, hconnections]

/-- What the shutdown does to each connection. -/
def AllRest (s t : State) : Prop :=
  t.connections.length = s.connections.length ∧ ∀ (j : Nat) c, s.connections[j]? = some c →
    ∃ c', t.connections[j]? = some c' ∧ Rests c c' ∧ c'.phase = c.phase

theorem AllRest.refl (s : State) : AllRest s s :=
  ⟨rfl, fun _ c hc => ⟨c, hc, Rests.refl c, rfl⟩⟩

theorem AllRest.trans {m : State} (h : AllRest s m) (h' : AllRest m t) : AllRest s t := by
  refine ⟨h'.1.trans h.1, fun j c hc => ?_⟩
  obtain ⟨d, hd, hrests, hphase⟩ := h.2 j c hc
  obtain ⟨e, he, hrests', hphase'⟩ := h'.2 j d hd
  exact ⟨e, he, hrests.trans hrests', hphase'.trans hphase⟩

theorem allRest_put (hc : s.connections[i]? = some c) (hu : u.connections = s.connections)
    (hrests : Rests c c') (hphase : c'.phase = c.phase) :
    AllRest s (u.put i c') := by
  rw [AllRest, State.put, hu]
  refine ⟨List.length_set, fun j d hd => ?_⟩
  rw [List.getElem?_set]
  by_cases hij : i = j
  · subst hij
    rw [hc] at hd
    cases hd
    rw [if_pos rfl, if_pos (List.getElem?_eq_some_iff.mp hc).1]
    exact ⟨c', rfl, hrests, hphase⟩
  · rw [if_neg hij]
    exact ⟨d, hd, Rests.refl d, rfl⟩

theorem shutdown_rests (ports : Ports) (s : State) (i : Nat) :
    AllRest s (shutdown ports s i).1 := by
  rw [shutdown]
  split
  · exact AllRest.refl s
  · rename_i c hc
    obtain ⟨hconnections, hrests, hphase⟩ := close_rests ports s i c
    dsimp only
    split_ifs
    · exact allRest_put hc hconnections hrests hphase
    · exact allRest_put hc hconnections
        ⟨hrests.tick, hrests.cursor, hrests.settings, hrests.schedules⟩ hphase

theorem shutdownAll_rests (ports : Ports) (closers : List Nat) (s : State) :
    AllRest s (shutdownAll ports s closers) := by
  induction closers generalizing s with
  | nil => exact AllRest.refl s
  | cons j rest ih =>
    have hfirst := shutdown_rests ports s j
    rw [shutdownAll]
    split
    · rename_i t ht
      rw [ht] at hfirst
      exact hfirst
    · rename_i t ht
      rw [ht] at hfirst
      exact hfirst.trans (ih t)

theorem performCall_rests (c : Connection) (call : OpeningCall) :
    (performCall c call).tick = c.tick ∧ (performCall c call).cursor = c.cursor := by
  cases call with
  | setHeader name value => exact ⟨rfl, rfl⟩
  | flushHeaders => exact ⟨rfl, rfl⟩
  | write chunk =>
    rw [performCall, write]
    split_ifs <;> exact ⟨rfl, rfl⟩
  | every schedule => exact ⟨rfl, rfl⟩

theorem write_rests (c : Connection) (chunk : String) :
    Rests c (write c chunk) ∧ (write c chunk).phase = c.phase := by
  rw [write]
  split_ifs
  · exact ⟨Rests.refl c, rfl⟩
  · exact ⟨⟨rfl, rfl, rfl, id⟩, rfl⟩

theorem startTick_moves (c : Connection) : (startTick c).cursor = c.cursor ∧
    (startTick c).phase = c.phase ∧
      ((startTick c).tick = c.tick ∨ c.tick = .idle ∧ (startTick c).tick = .listing) := by
  rw [startTick]
  split_ifs with hbusy
  · exact ⟨rfl, rfl, .inl rfl⟩
  · simp only [Bool.or_eq_true, decide_eq_true_eq, not_or, ne_eq, not_not] at hbusy
    exact ⟨rfl, rfl, .inr ⟨hbusy.1, rfl⟩⟩

theorem handled_moves (hturns : label.turns = true) (hc : s.connections[i]? = some c)
    {rest : List Row} (htick : c.tick = .rows (row :: rest) ∨ c.tick = .projecting row rest)
    {result : Option (State × Connection)}
    (hresult : ∀ u d, result = some (u, d) → u.connections = s.connections ∧ d.phase = c.phase) :
    Rewritten s (handled s i c row rest result) i label := by
  have hbusy : c.tick ≠ .idle := by
    intro hidle
    rcases htick with h | h <;> rw [hidle] at h <;> cases h
  rw [handled.eq_def]
  split
  · exact ⟨c, _, hc, rfl, .stops hturns hbusy rfl rfl rfl⟩
  · rename_i u d
    obtain ⟨hconnections, hphase⟩ := hresult u d rfl
    exact rewritten_put hc hconnections (.passes hturns htick rfl rfl hphase)

theorem drop_keeps {throws : Bool} {d : Connection} (h : drop s c row throws = some (u, d)) :
    u.connections = s.connections ∧ d.phase = c.phase := by
  rw [drop] at h
  split_ifs at h
  · cases h
    exact ⟨rfl, (write_rests c _).2⟩
  · cases h
    exact ⟨rfl, rfl⟩

theorem rowStep_moves (hturns : label.turns = true) (hc : s.connections[i]? = some c)
    {rows : List Row} (htick : c.tick = .rows rows) (throws : Bool) :
    Rewritten s (rowStep s i c rows throws) i label := by
  have hbusy : c.tick ≠ .idle := by
    rw [htick]
    exact fun h => by cases h
  rw [rowStep.eq_def]
  split
  · exact ⟨c, _, hc, rfl, .stops hturns hbusy rfl rfl rfl⟩
  · split_ifs
    · exact ⟨c, _, hc, rfl, .stops hturns hbusy rfl rfl rfl⟩
    · exact ⟨c, _, hc, rfl, .projects hturns htick rfl rfl rfl⟩
    · exact handled_moves hturns hc (.inl htick) fun u d h => drop_keeps h

theorem projectedStep_moves (hturns : label.turns = true) (hc : s.connections[i]? = some c)
    {rest : List Row} (htick : c.tick = .projecting row rest) (projection : Projection)
    (throws : Bool) :
    Rewritten s (projectedStep s i c row rest projection throws) i label := by
  have hbusy : c.tick ≠ .idle := by
    rw [htick]
    exact fun h => by cases h
  rw [projectedStep.eq_def]
  split
  · exact handled_moves hturns hc (.inr htick) fun u d h => drop_keeps h
  · split_ifs
    · exact ⟨c, _, hc, rfl, .stops hturns hbusy rfl rfl rfl⟩
    · refine handled_moves hturns hc (.inr htick) fun u d h => ?_
      cases h
      exact ⟨rfl, rfl⟩
  · split_ifs
    · exact ⟨c, _, hc, rfl, .stops hturns hbusy rfl rfl rfl⟩
    · exact handled_moves hturns hc (.inr htick) fun u d h => drop_keeps h
    · refine handled_moves hturns hc (.inr htick) fun u d h => ?_
      cases h
    · refine handled_moves hturns hc (.inr htick) fun u d h => ?_
      cases h
      exact ⟨rfl, (write_rests c _).2⟩

theorem preflightFailed_moves (hreplies : label.replies = true) (hc : s.connections[i]? = some c)
    (hopened : c.isOpened = false) :
    Rewritten s (preflightFailed ports s i c) i label := by
  obtain ⟨hconnections, hrests, -⟩ := release_rests s i c
  rw [preflightFailed]
  exact rewritten_put hc hconnections (.ends hreplies hopened rfl
    ⟨hrests.tick, hrests.cursor, hrests.settings, hrests.schedules⟩)

theorem nowReply_of_within {now : Int}
    (hwindow : ¬ c.settings.replayWindowMs < ((now - row.createdAt : Int) : ℚ))
    (hthere : c.disconnected = false) :
    nowReply ports s i c (some row) (some now) = beginStream ports s i c row.toCursor := by
  rw [nowReply.eq_def]
  dsimp only
  rw [if_neg hwindow, if_neg (ne_true_of_eq_false hthere)]

theorem nowReply_moves (hc : s.connections[i]? = some c) {visible : Option Row}
    (hphase : c.phase = .now visible) (reply : Option Int) :
    Rewritten s (nowReply ports s i c visible reply) i (.nowReply i reply) := by
  have hopened := isOpened_of_phase_now hphase
  obtain ⟨hconnections, hrests, -⟩ := release_rests s i c
  rw [nowReply.eq_def]
  split
  · exact preflightFailed_moves rfl hc hopened
  · split
    · dsimp only
      split_ifs
      · exact rewritten_put hc hconnections (.ends rfl hopened rfl
          ⟨hrests.tick, hrests.cursor, hrests.settings, hrests.schedules⟩)
      · exact ⟨c, _, hc, rfl, .ends rfl hopened rfl ⟨rfl, rfl, rfl, id⟩⟩
      · exact ⟨c, _, hc, rfl, .begins hphase rfl rfl rfl⟩
    · split_ifs
      · exact ⟨c, _, hc, rfl, .ends rfl hopened rfl ⟨rfl, rfl, rfl, id⟩⟩
      · exact ⟨c, _, hc, rfl, .begins hphase rfl rfl rfl⟩

theorem openingStep_moves (hc : s.connections[i]? = some c) {call : OpeningCall}
    {rest : List OpeningCall} (hphase : c.phase = .opening (call :: rest)) (throws : Bool) :
    Rewritten s (openingStep ports s i c call rest throws) i (.openingCall i throws) := by
  have hopened : c.isOpened = true := isOpened_of_phase_opening hphase
  obtain ⟨htick, hcursor⟩ := performCall_rests c call
  rw [openingStep.eq_def]
  dsimp only
  by_cases hthrew : (throws && !skips c call) = true
  · rw [if_pos hthrew]
    obtain ⟨hconnections, hrests, -⟩ := close_rests ports s i c
    exact rewritten_put hc hconnections (.works rfl (.inl hopened) hopened.symm hrests.cursor
      (.inl hrests.tick))
  · rw [if_neg hthrew]
    split
    · split_ifs
      · obtain ⟨hcursor', hphase', htick'⟩ :=
          startTick_moves { performCall c call with phase := .opened }
        refine rewritten_put hc rfl (.works rfl (.inl hopened) ?_ (hcursor'.trans hcursor) ?_)
        · rw [isOpened_eq hphase', hopened]
          rfl
        · rcases htick' with hsame | ⟨hidle, hlisting⟩
          · exact .inl (hsame.trans htick)
          · exact .inr ⟨htick.symm.trans hidle, hlisting⟩
      · exact rewritten_put hc rfl
          (.works rfl (.inl hopened) hopened.symm hcursor (.inl htick))
    · exact rewritten_put hc rfl
        (.works rfl (.inl hopened) hopened.symm hcursor (.inl htick))

/-- The connection that an event is about. -/
def Label.about : Label → Option Nat
  | .findReply i _ | .nowReply i _ | .openingCall i _ | .requestClose i _ _ | .responseClose i
  | .heartbeat i _ | .tick i | .listReply i _ | .row i _ | .projected i _ _ => some i
  | .openStream _ _ | .destroy => none

theorem step_moves (habout : label.about = some i) (hstep : step ports s label = some t) :
    Rewritten s t i label := by
  cases label with
  | openStream headers options => cases habout
  | destroy => cases habout
  | findReply i reply =>
    cases habout
    obtain ⟨c, hc, h⟩ := Option.bind_eq_some_iff.mp hstep
    split at h
    case h_1 lastId hphase =>
      cases h
      have hopened := isOpened_of_phase_findById hphase
      rw [findReply.eq_def]
      split
      · exact preflightFailed_moves rfl hc hopened
      · exact ⟨c, _, hc, rfl, .finds hphase rfl ⟨rfl, rfl, rfl, id⟩⟩
    case h_2 => cases h
  | nowReply i reply =>
    cases habout
    obtain ⟨c, hc, h⟩ := Option.bind_eq_some_iff.mp hstep
    split at h
    case h_1 visible hphase =>
      cases h
      exact nowReply_moves hc hphase reply
    case h_2 => cases h
  | openingCall i throws =>
    cases habout
    obtain ⟨c, hc, h⟩ := Option.bind_eq_some_iff.mp hstep
    split at h
    case h_1 call rest hphase =>
      cases h
      exact openingStep_moves hc hphase throws
    case h_2 => cases h
  | requestClose i complete aborted =>
    cases habout
    obtain ⟨c, hc, rfl⟩ := Option.map_eq_some_iff.mp hstep
    obtain ⟨c', hset, hrests, hphase⟩ := requestClosed_rests ports s _ c complete aborted
    exact ⟨c, c', hc, hset, .rests rfl hrests hphase⟩
  | responseClose i =>
    cases habout
    obtain ⟨c, hc, rfl⟩ := Option.map_eq_some_iff.mp hstep
    obtain ⟨c', hset, hrests, hphase⟩ := responseClosed_rests ports s _ c
    exact ⟨c, c', hc, hset, .rests rfl hrests hphase⟩
  | heartbeat i throws =>
    cases habout
    obtain ⟨c, hc, h⟩ := Option.bind_eq_some_iff.mp hstep
    split_ifs at h
    · cases h
      obtain ⟨hlt, hself⟩ := List.getElem?_eq_some_iff.mp hc
      refine ⟨c, c, hc, ?_, .rests rfl (Rests.refl c) rfl⟩
      rw [← hself, List.set_getElem_self]
    · cases h
      exact ⟨c, _, hc, rfl, .rests rfl (write_rests c _).1 (write_rests c _).2⟩
  | tick i =>
    cases habout
    obtain ⟨c, hc, h⟩ := Option.bind_eq_some_iff.mp hstep
    split_ifs at h with hscheduled
    cases h
    obtain ⟨hcursor, hphase, htick⟩ := startTick_moves c
    refine ⟨c, _, hc, rfl, .works rfl (.inr fun hnone => ?_) (isOpened_eq hphase) hcursor htick⟩
    rw [hnone] at hscheduled
    cases hscheduled
  | listReply i reply =>
    cases habout
    obtain ⟨c, hc, h⟩ := Option.bind_eq_some_iff.mp hstep
    split_ifs at h with hlisting
    cases h
    exact ⟨c, _, hc, rfl, .lists hlisting rfl rfl rfl⟩
  | row i throws =>
    cases habout
    obtain ⟨c, hc, h⟩ := Option.bind_eq_some_iff.mp hstep
    split at h
    case h_1 rows htick =>
      cases h
      exact rowStep_moves rfl hc htick throws
    case h_2 => cases h
  | projected i projection throws =>
    cases habout
    obtain ⟨c, hc, h⟩ := Option.bind_eq_some_iff.mp hstep
    split at h
    case h_1 row rest htick =>
      cases h
      exact projectedStep_moves rfl hc htick projection throws
    case h_2 => cases h

structure Admitted (headers : List (String × HeaderValue)) (c : Connection) : Prop where
  isOpened : c.isOpened = false
  /-- Its loop does not run. -/
  tick : c.tick = .idle
  schedules : c.schedules = []
  /-- It asks for the identifier in its header, or for the clock. -/
  phase : c.phase = .returned ∧ (header headers "last-event-id").2.any safeLine = false ∨
    c.phase = match (header headers "last-event-id").2 with
      | some id => .findById id
      | none => .now none

theorem openStream_admits (headers : List (String × HeaderValue)) (options : Options) :
    (openStream ports s headers options).connections = s.connections ∨
      ∃ c, (openStream ports s headers options).connections = s.connections ++ [c] ∧
        Admitted headers c := by
  rw [openStream]
  split
  · exact .inl rfl
  · exact .inl rfl
  case h_3 key settings hadmitted =>
    refine .inr ?_
    dsimp only
    split_ifs with hinvalid
    · rw [Bool.and_eq_true, Bool.not_eq_true'] at hinvalid
      rw [release_fst, release_snd, State.put, take]
      dsimp only
      rw [List.set_append_right _ _ le_rfl, Nat.sub_self]
      exact ⟨_, rfl, rfl, rfl, rfl, .inl ⟨rfl, hinvalid.2⟩⟩
    · refine ⟨_, rfl, ?_, rfl, rfl, .inr rfl⟩
      unfold Connection.isOpened admittedConnection
      cases (header headers "last-event-id").2 <;> rfl

theorem destroy_rests (hstep : step ports s .destroy = some t) : AllRest s t := by
  cases hstep
  exact shutdownAll_rests ports _ s

end Stynx.EventStream
