import Mathlib.Data.Prod.Lex
import Stynx.AuditChain

/-!
# Runs of the audit writers

The committed events of a chain are its legacy rows and then its current epoch, in
the order of the commits.
-/

namespace Stynx.AuditChain

open ReadCommitted
open LinkedLists
open TransitionRuns

section

theorem headOrder_iff {first second : Event} : headOrder first second ↔
    toLex (second.occurredAt, second.eventId) ≤ toLex (first.occurredAt, first.eventId) := by
  rw [Prod.Lex.toLex_le_toLex, headOrder]

instance : Std.Total headOrder where
  total _ _ := (le_total _ _).imp headOrder_iff.mpr headOrder_iff.mpr

instance : IsTrans Event headOrder where
  trans _ _ _ h h' := headOrder_iff.mpr ((headOrder_iff.mp h').trans (headOrder_iff.mp h))

theorem headOrder.le {first second : Event} (h : headOrder first second) :
    second.occurredAt ≤ first.occurredAt := by
  rcases h with hlt | ⟨heq, -⟩ <;> omega

variable {tenancyId : Option Nat} {events : List Event}

theorem headOf_spec {head : Event} (h : headOf tenancyId events = some head) :
    head ∈ chainOf tenancyId events ∧
      ∀ event ∈ chainOf tenancyId events, event.occurredAt ≤ head.occurredAt := by
  have hsorted := List.pairwise_insertionSort headOrder (chainOf tenancyId events)
  obtain ⟨rest, hsort⟩ := List.head?_eq_some_iff.mp h
  rw [hsort] at hsorted
  refine ⟨(List.mem_insertionSort headOrder).mp (by rw [hsort]; exact List.mem_cons_self), ?_⟩
  intro event hevent
  rw [← List.mem_insertionSort headOrder, hsort] at hevent
  rcases List.mem_cons.mp hevent with rfl | hrest
  · exact le_refl _
  · exact ((List.pairwise_cons.mp hsorted).1 event hrest).le

theorem headOf_eq_none (h : headOf tenancyId events = none) : chainOf tenancyId events = [] := by
  have hlength := List.length_insertionSort headOrder (chainOf tenancyId events)
  rw [headOf, List.head?_eq_none_iff] at h
  rw [h] at hlength
  exact List.length_eq_zero_iff.mp hlength.symm

theorem lt_chosenAt_of_head (now instant : Int) : instant < chosenAt now (some instant) := by
  rw [chosenAt]
  exact lt_of_lt_of_le (by omega) (le_max_right now (instant + 1))

end

section

variable (f : Functions)

/-- A chain that has been sealed, and goes on. -/
structure Sealed (legacy current : List Event) : Prop where
  /-- Legacy rows are in another epoch. -/
  older : ∀ event ∈ legacy, event.epochId ≠ 1
  newer : ∀ event ∈ current, event.epochId = 1
  /-- Each event names the hash of the one before it. -/
  linked : Linked Event.previousHash Event.rowHash none current
  increasing : current.Pairwise fun first second => first.occurredAt < second.occurredAt
  /-- The epoch begins after the legacy rows. -/
  after : ∀ old ∈ legacy, ∀ event ∈ current, old.occurredAt < event.occurredAt
  /-- Legacy rows have been sealed. -/
  anchored : current = [] → legacy = []
  hashed : ∀ event ∈ current, event.rowHash = computeEventHash f event

def ChainSound (chain : List Event) : Prop :=
  ∃ legacy current, chain = legacy ++ current ∧ Sealed f legacy current

/-- What may be appended to a chain. -/
structure Follows (chain : List Event) (previousHash : Option String) (occurredAt : Int) : Prop where
  /-- It names the hash of the last event. -/
  linked : ∀ legacy current, chain = legacy ++ current → Sealed f legacy current →
    previousHash = tip Event.rowHash none current
  later : ∀ event ∈ chain, event.occurredAt < occurredAt

end

section

variable {f : Functions}

theorem chainOf_append (tenancyId : Option Nat) (first second : List Event) :
    chainOf tenancyId (first ++ second) = chainOf tenancyId first ++ chainOf tenancyId second :=
  List.filter_append ..

variable {tenancyId : Option Nat} {events legacy current : List Event}

theorem Sealed.headOf (h : Sealed f legacy current)
    (hchain : chainOf tenancyId events = legacy ++ current) :
    headOf tenancyId events = current.getLast? := by
  cases hhead : AuditChain.headOf tenancyId events with
  | none =>
    have hempty := headOf_eq_none hhead
    rw [hchain, List.append_eq_nil_iff] at hempty
    rw [hempty.2]
    rfl
  | some head =>
    obtain ⟨hmem, hlatest⟩ := headOf_spec hhead
    rcases List.eq_nil_or_concat current with rfl | ⟨init, last, rfl⟩
    · rw [hchain, h.anchored rfl] at hmem
      cases hmem
    · rw [List.concat_eq_append] at h hchain ⊢
      rw [List.getLast?_concat]
      have hle : last.occurredAt ≤ head.occurredAt := hlatest last (by rw [hchain]; simp)
      rw [hchain, List.mem_append, List.mem_append, List.mem_singleton] at hmem
      rcases hmem with hold | hinit | hlast
      · have hlt := h.after head hold last (by simp)
        omega
      · have hlt := (List.pairwise_append.mp h.increasing).2.2 head hinit last (by simp)
        omega
      · rw [hlast]

theorem tip_eq_getLast? (current : List Event) :
    tip Event.rowHash none current = current.getLast?.map Event.rowHash := by
  rcases List.eq_nil_or_concat current with rfl | ⟨init, last, rfl⟩
  · rfl
  · rw [List.concat_eq_append, tip_concat, List.getLast?_concat]
    rfl

theorem readHead_follows (tenancyId : Option Nat) (now : Int) (events : List Event) :
    Follows f (chainOf tenancyId events) (readHead tenancyId now events).1
      (readHead tenancyId now events).2 where
  linked legacy current hchain hsealed := by
    rw [readHead, tip_eq_getLast?, hsealed.headOf hchain]
  later event hevent := by
    rw [readHead]
    cases hhead : headOf tenancyId events with
    | none =>
      rw [headOf_eq_none hhead] at hevent
      cases hevent
    | some head =>
      exact lt_of_le_of_lt ((headOf_spec hhead).2 event hevent) (lt_chosenAt_of_head _ _)

theorem ChainSound.concat {chain : List Event} {event : Event} (h : ChainSound f chain)
    (hfollows : Follows f chain event.previousHash event.occurredAt) (hepoch : event.epochId = 1)
    (hhash : event.rowHash = computeEventHash f event) : ChainSound f (chain ++ [event]) := by
  obtain ⟨legacy, current, rfl, hsealed⟩ := h
  refine ⟨legacy, current ++ [event], List.append_assoc .., hsealed.older, ?_, ?_, ?_, ?_, ?_, ?_⟩
  · intro other hother
    rcases TransitionRuns.mem_concat_iff.mp hother with hold | rfl
    · exact hsealed.newer other hold
    · exact hepoch
  · exact (linked_concat _ _).mpr ⟨hsealed.linked, hfollows.linked legacy current rfl hsealed⟩
  · rw [List.pairwise_append]
    refine ⟨hsealed.increasing, List.pairwise_singleton _ _, ?_⟩
    intro first hfirst second hsecond
    rw [List.mem_singleton.mp hsecond]
    exact hfollows.later first (List.mem_append_right _ hfirst)
  · intro old hold other hother
    rcases TransitionRuns.mem_concat_iff.mp hother with hcurrent | rfl
    · exact hsealed.after old hold other hcurrent
    · exact hfollows.later old (List.mem_append_left _ hold)
  · intro hempty
    exact absurd hempty (by simp)
  · intro other hother
    rcases TransitionRuns.mem_concat_iff.mp hother with hold | rfl
    · exact hsealed.hashed other hold
    · exact hhash

theorem Sealed.currentEpoch (h : Sealed f legacy current)
    (hchain : chainOf tenancyId events = legacy ++ current) :
    currentEpoch tenancyId events = current := by
  have hlegacy : legacy.filter (fun event => decide (event.epochId = 1)) = [] := by
    rw [List.filter_eq_nil_iff]
    intro event hevent
    simp [h.older event hevent]
  have hcurrent : current.filter (fun event => decide (event.epochId = 1)) = current := by
    rw [List.filter_eq_self]
    intro event hevent
    simp [h.newer event hevent]
  rw [AuditChain.currentEpoch, hchain, List.filter_append, hlegacy, hcurrent, List.nil_append]
  exact List.Pairwise.insertionSort_eq (h.increasing.imp fun hlt => .inl hlt)

theorem chainOf_filterMap {anchor : Option Nat → Option Event}
    (hanchor : ∀ tenancyId event, anchor tenancyId = some event → event.tenancyId = tenancyId)
    {tenants : List (Option Nat)} (hnodup : tenants.Nodup) (tenancyId : Option Nat) :
    chainOf tenancyId (tenants.filterMap anchor) =
      if tenancyId ∈ tenants then (anchor tenancyId).toList else [] := by
  induction tenants with
  | nil => rfl
  | cons first rest ih =>
    obtain ⟨hfirst, hrest⟩ := List.nodup_cons.mp hnodup
    have hcons : chainOf tenancyId ((first :: rest).filterMap anchor) =
        chainOf tenancyId (anchor first).toList ++ chainOf tenancyId (rest.filterMap anchor) := by
      rw [← chainOf_append, List.filterMap_cons]
      cases anchor first <;> rfl
    rw [hcons, ih hrest]
    by_cases heq : tenancyId = first
    · subst heq
      rw [if_neg hfirst, if_pos List.mem_cons_self, List.append_nil]
      cases hown : anchor tenancyId with
      | none => rfl
      | some event => simp [chainOf, hanchor _ _ hown]
    · have hnone : chainOf tenancyId (anchor first).toList = [] := by
        cases hown : anchor first with
        | none => rfl
        | some event => simp [chainOf, hanchor _ _ hown, Ne.symm heq]
      simp [hnone, heq]

theorem sealLegacy_sound (anchorId : Option Nat → Nat) (now : Option Nat → Int)
    (legacy : List Event) (tenancyId : Option Nat) :
    ChainSound f (chainOf tenancyId (sealLegacy f anchorId now legacy)) := by
  rw [sealLegacy, chainOf_append, chainOf_filterMap _ (List.nodup_dedup _)]
  · generalize hrows : (legacy.map fun event => { event with epochId := 0 }) = rows
    have hepoch : ∀ event ∈ rows, event.epochId ≠ 1 := by
      intro event hevent
      rw [← hrows] at hevent
      obtain ⟨old, -, rfl⟩ := List.mem_map.mp hevent
      exact Nat.zero_ne_one
    split_ifs with htenant
    · cases hhead : headOf tenancyId rows with
      | none =>
        rw [headOf_eq_none hhead]
        exact ⟨[], [], rfl, by simp, by simp, trivial, List.Pairwise.nil, by simp, fun _ => rfl,
          by simp⟩
      | some head =>
        refine ⟨chainOf tenancyId rows, [_], rfl, ?_, ?_, ⟨rfl, trivial⟩,
          List.pairwise_singleton _ _, ?_, by simp, ?_⟩
        · exact fun event hevent => hepoch event (List.mem_of_mem_filter hevent)
        · intro event hevent
          rw [List.mem_singleton.mp hevent]
          rfl
        · intro old hold event hevent
          rw [List.mem_singleton.mp hevent]
          exact lt_of_le_of_lt ((headOf_spec hhead).2 old hold) (lt_chosenAt_of_head _ _)
        · intro event hevent
          rw [List.mem_singleton.mp hevent]
          rfl
    · have hempty : chainOf tenancyId rows = [] := by
        rw [chainOf, List.filter_eq_nil_iff]
        intro event hevent hown
        rw [List.mem_dedup, List.mem_map] at htenant
        exact htenant ⟨event, hevent, by simpa using hown⟩
      rw [hempty]
      exact ⟨[], [], rfl, by simp, by simp, trivial, List.Pairwise.nil, by simp, fun _ => rfl,
        by simp⟩
  · intro tenancyId event hevent
    obtain ⟨head, -, rfl⟩ := Option.map_eq_some_iff.mp hevent
    rfl

end

section

variable (f : Functions)

def Sound (events : List Event) : Prop := ∀ tenancyId, ChainSound f (chainOf tenancyId events)

/-- A transaction that holds the lock of its chain. -/
structure Writing (events : List Event) (held : LockKey → Prop) (writes : List Event)
    (key : String) : Prop where
  owns : held (.advisory (f.hashtextextended key))
  own : ∀ event ∈ writes, chainKey event.tenancyId = key
  sound : ∀ tenancyId, chainKey tenancyId = key →
    ChainSound f (chainOf tenancyId (events ++ writes))

/-- What a transaction may assert at its statements. -/
def Asserted (events : List Event) (held : LockKey → Prop)
    (session : Session Event WriterPhase) : Prop :=
  match session.phase with
  | .idle | .active _ none => session.writes = []
  | .active _ (some key) => Writing f events held session.writes key
  | .locking fields =>
    session.writes = [] ∨ Writing f events held session.writes (chainKey fields.tenancyId)
  | .locked fields => Writing f events held session.writes (chainKey fields.tenancyId)
  | .headRead fields previousHash occurredAt =>
    Writing f events held session.writes (chainKey fields.tenancyId) ∧
      Follows f (chainOf fields.tenancyId (events ++ session.writes)) previousHash occurredAt

variable {f}

theorem view_eq (events : List Event) (session : Session Event WriterPhase) :
    session.view (auditWriters f) events = events ++ session.writes := by
  unfold Session.view
  generalize session.writes = writes
  induction writes generalizing events with
  | nil => simp
  | cons event rest ih =>
    rw [List.foldl_cons, ih, List.append_cons]
    rfl

variable {events writes : List Event} {held held' : LockKey → Prop} {key : String}

theorem Writing.mono (h : Writing f events held writes key) (hmono : ∀ k, held k → held' k) :
    Writing f events held' writes key := ⟨hmono _ h.owns, h.own, h.sound⟩

theorem Sound.writing (h : Sound f events) (howns : held (.advisory (f.hashtextextended key))) :
    Writing f events held [] key := by
  refine ⟨howns, fun _ hnone => absurd hnone List.not_mem_nil, ?_⟩
  intro tenancyId _
  rw [List.append_nil]
  exact h tenancyId

variable {tenancyId : Option Nat} {writes' : List Event} {key' : String} {fields : EventFields}
  {phase : WriterPhase} {isolation : Isolation} {priorKey : Option String}

theorem chainOf_writes (h : ∀ event ∈ writes, chainKey event.tenancyId = key)
    (hother : chainKey tenancyId ≠ key) :
    chainOf tenancyId (events ++ writes) = chainOf tenancyId events := by
  have hnone : chainOf tenancyId writes = [] := by
    rw [chainOf, List.filter_eq_nil_iff]
    intro event hevent hown
    have htenant : event.tenancyId = tenancyId := by simpa using hown
    exact hother (htenant ▸ h event hevent)
  rw [chainOf_append, hnone, List.append_nil]

theorem Writing.commit (h : Writing f events held writes key) (hs : Sound f events) :
    Sound f (events ++ writes) := by
  intro tenancyId
  by_cases hkey : chainKey tenancyId = key
  · exact h.sound tenancyId hkey
  · rw [chainOf_writes h.own hkey]
    exact hs tenancyId

section

variable (h : Writing f events held writes key) (h' : Writing f events held' writes' key')
  (hapart : ∀ k, held k → ¬held' k)
include h h' hapart

theorem Writing.chainOf_stable (htenant : chainKey tenancyId = key) :
    chainOf tenancyId (events ++ writes' ++ writes) = chainOf tenancyId (events ++ writes) := by
  have hkeys : chainKey tenancyId ≠ key' := by
    intro hsame
    refine hapart _ h.owns ?_
    rw [← htenant, hsame]
    exact h'.owns
  rw [chainOf_append, chainOf_writes h'.own hkeys, ← chainOf_append]

theorem Writing.stable : Writing f (events ++ writes') held writes key := by
  refine ⟨h.owns, h.own, ?_⟩
  intro tenancyId htenant
  rw [h.chainOf_stable h' hapart htenant]
  exact h.sound tenancyId htenant

end

theorem Writing.insert {previousHash : Option String} {occurredAt : Int}
    (h : Writing f events held writes (chainKey fields.tenancyId))
    (hfollows : Follows f (chainOf fields.tenancyId (events ++ writes)) previousHash occurredAt)
    (eventId : Nat) (hmono : ∀ k, held k → held' k) :
    Writing f events held' (writes ++ [insertedEvent f fields eventId previousHash occurredAt])
      (chainKey fields.tenancyId) := by
  refine ⟨hmono _ h.owns, ?_, ?_⟩
  · intro event hevent
    rcases TransitionRuns.mem_concat_iff.mp hevent with hold | rfl
    · exact h.own event hold
    · rfl
  · intro tenancyId htenant
    rw [← List.append_assoc, chainOf_append]
    by_cases hown : tenancyId = fields.tenancyId
    · subst hown
      have hself : chainOf fields.tenancyId
          [insertedEvent f fields eventId previousHash occurredAt] =
          [insertedEvent f fields eventId previousHash occurredAt] := by
        simp [chainOf, insertedEvent, setEventRowHash]
      rw [hself]
      exact (h.sound _ htenant).concat hfollows rfl rfl
    · have hnone : chainOf tenancyId
          [insertedEvent f fields eventId previousHash occurredAt] = [] := by
        simp [chainOf, insertedEvent, setEventRowHash, Ne.symm hown]
      rw [hnone, List.append_nil]
      exact h.sound tenancyId htenant

theorem active_of_commit {next : WriterPhase} {action : Action}
    (h : writerTurn f events phase action = some (.commit next)) :
    next = .idle ∧ ∃ isolation priorKey, phase = .active isolation priorKey := by
  cases phase with
  | idle | locking | locked => cases action <;> cases h
  | headRead =>
    cases action with
    | uuid =>
      simp only [writerTurn] at h
      split at h <;> cases h
    | start | call | clock | next => cases h
  | active isolation priorKey =>
    cases action with
    | next =>
      cases h
      exact ⟨rfl, isolation, priorKey, rfl⟩
    | call entry =>
      simp only [writerTurn] at h
      split at h
      · cases h
      · cases h
      · obtain ⟨phase, -, hgo⟩ := Option.map_eq_some_iff.mp h
        cases hgo
    | start | clock | uuid => cases h

theorem lockChain_ok (h : lockChain isolation priorKey fields = .ok phase) :
    phase = .locking fields ∧ ∀ key, priorKey = some key → key = chainKey fields.tenancyId := by
  rw [lockChain] at h
  split at h
  · cases h
  · split at h
    · cases h
    · rename_i hsame
      cases h
      refine ⟨rfl, ?_⟩
      rintro key rfl
      simpa using hsame

theorem Asserted.committed {session : Session Event WriterPhase}
    (h : Asserted f events held session) (hphase : session.phase = .active isolation priorKey) :
    session.writes = [] ∨ ∃ key, Writing f events held session.writes key := by
  rw [Asserted, hphase] at h
  cases priorKey with
  | none => exact .inl h
  | some key => exact .inr ⟨key, h⟩

theorem auditWriters_outline (f : Functions) : Outline (auditWriters f) (Sound f) (Asserted f) where
  idle _ := rfl
  turn := by
    intro events held free session action turn h hturn
    obtain ⟨hs, hlocked, hgood⟩ := h
    obtain ⟨writes, phase⟩ := session
    cases phase with
    | idle =>
      cases action with
      | start isolation =>
        cases hturn
        exact hgood
      | call | clock | uuid | next => cases hturn
    | active isolation priorKey =>
      cases action with
      | call entry =>
        simp only [auditWriters, writerTurn] at hturn
        split at hturn
        · cases hturn
        · cases hturn
          exact hgood
        · rename_i fields hfields
          obtain ⟨phase, hphase, hgo⟩ := Option.map_eq_some_iff.mp hturn
          have hok : lockChain isolation priorKey fields = .ok phase := by
            cases hlock : lockChain isolation priorKey fields with
            | error code =>
              rw [hlock] at hphase
              cases hphase
            | ok other =>
              rw [hlock] at hphase
              cases hphase
              rfl
          obtain ⟨rfl, hkey⟩ := lockChain_ok hok
          cases hgo
          cases priorKey with
          | none => exact .inl hgood
          | some key =>
            obtain rfl := hkey key rfl
            exact .inr hgood
      | next =>
        cases hturn
        refine ⟨?_, rfl⟩
        rw [view_eq]
        rcases Asserted.committed hgood rfl with hnothing | ⟨key, hwriting⟩
        · dsimp only at hnothing ⊢
          rw [hnothing, List.append_nil]
          exact hs
        · exact hwriting.commit hs
      | start | clock | uuid => cases hturn
    | locking fields =>
      cases action with
      | next =>
        cases hturn
        rcases hgood with hnothing | hwriting
        · obtain rfl : writes = [] := hnothing
          exact hs.writing (.inl rfl)
        · exact hwriting.mono fun _ => .inr
      | start | call | clock | uuid => cases hturn
    | locked fields =>
      cases action with
      | clock now =>
        cases hturn
        rw [view_eq]
        exact ⟨hgood, readHead_follows _ _ _⟩
      | start | call | uuid | next => cases hturn
    | headRead fields previousHash occurredAt =>
      cases action with
      | uuid eventId =>
        simp only [auditWriters, writerTurn] at hturn
        split at hturn
        · cases hturn
        · cases hturn
          exact hgood.1.insert hgood.2 eventId fun _ => .inr
      | start | call | clock | next => cases hturn
  stable := by
    intro events held held' free session session' action next h h' hapart hturn
    obtain ⟨-, isolation', priorKey', hphase⟩ := active_of_commit hturn
    rw [view_eq]
    rcases Asserted.committed h'.good hphase with hnothing | ⟨key', hwriting'⟩
    · rw [hnothing, List.append_nil]
      exact h.good
    · have hgood := h.good
      obtain ⟨writes, phase⟩ := session
      cases phase with
      | idle => exact hgood
      | active isolation priorKey =>
        cases priorKey with
        | none => exact hgood
        | some key => exact Writing.stable hgood hwriting' hapart
      | locking fields => exact hgood.imp_right fun hwriting => hwriting.stable hwriting' hapart
      | locked fields => exact Writing.stable hgood hwriting' hapart
      | headRead fields previousHash occurredAt =>
        obtain ⟨hwriting, hfollows⟩ := hgood
        refine ⟨hwriting.stable hwriting' hapart, ?_⟩
        dsimp only at hwriting hfollows ⊢
        rw [hwriting.chainOf_stable hwriting' hapart rfl]
        exact hfollows

end

variable {f : Functions}

theorem ChainSound.verify {tenancyId : Option Nat} {events : List Event}
    (h : ChainSound f (chainOf tenancyId events)) :
    (currentEpoch tenancyId events).Pairwise
        (fun first second => first.occurredAt < second.occurredAt) ∧
      Linked Event.previousHash Event.rowHash none (currentEpoch tenancyId events) ∧
      ∀ limit, ∀ row ∈ verifyCurrentEpoch f tenancyId limit events, row.chainValid = true := by
  obtain ⟨legacy, current, hchain, hsealed⟩ := h
  rw [hsealed.currentEpoch hchain]
  refine ⟨hsealed.increasing, hsealed.linked, ?_⟩
  intro limit row hrow
  rw [verifyCurrentEpoch, hsealed.currentEpoch hchain] at hrow
  obtain ⟨entry, hentry, rfl⟩ := List.mem_map.mp (List.mem_of_mem_take hrow)
  have hlink := hsealed.linked.lag _ _ entry hentry
  have hhash := hsealed.hashed entry.2 (mem_of_mem_lag _ hentry)
  simp only [Bool.and_eq_true, decide_eq_true_eq]
  exact ⟨hhash, hlink⟩

/-- In any interleaving, whatever the clocks show and whatever the legacy rows are, in each chain:
the current epoch has increasing instants, each of its events names the hash of the one before it,
and the report finds every row valid. -/
theorem current_epoch_valid {anchorId : Option Nat → Nat} {now : Option Nat → Int}
    {legacy : List Event} {labels : List (Label Action)}
    {s : State (List Event) LockKey Event WriterPhase}
    (hrun : run (step (auditWriters f))
      (State.start (auditWriters f) (sealLegacy f anchorId now legacy)) labels = some s)
    (tenancyId : Option Nat) :
    (currentEpoch tenancyId s.committed).Pairwise
        (fun first second => first.occurredAt < second.occurredAt) ∧
      Linked Event.previousHash Event.rowHash none (currentEpoch tenancyId s.committed) ∧
      ∀ limit, ∀ row ∈ verifyCurrentEpoch f tenancyId limit s.committed, row.chainValid = true := by
  have houtline := auditWriters_outline f
  have hstart : Sound f (sealLegacy f anchorId now legacy) :=
    sealLegacy_sound anchorId now legacy
  exact ((houtline.run (houtline.start hstart) hrun).inv tenancyId).verify

/-- Functions that are easy to evaluate. -/
def plainFunctions : Functions where
  hashtextextended text := text.length
  sha256 text := "sha256:" ++ text
  md5 _ := "md5"
  formatHashTimestamp := toString
  jsonText _ := "json"
  columnSize := String.length

/-- An event of a tenant, as `audit.write` is given it. -/
def noteOf (tenancyId : Option Nat) (entityId : String) : EventFields where
  tenancyId := tenancyId
  actorId := some 5
  actorRole := some "app"
  operation := "NOTE"
  entity := "sample.notes"
  entityId := some entityId
  pk := none
  metadata := .given "\x7b\x7d"
  ipAddress := none
  requestId := none
  oldData := none
  newData := none

/-- One event in a transaction of its own, with what clock and generator say. -/
def noteRun (session : Nat) (tenancyId : Option Nat) (entityId : String) (now : Int)
    (eventId : Nat) : List (Label Action) :=
  [.start .readCommitted, .call (.write (noteOf tenancyId entityId)), .next, .clock now,
    .uuid eventId, .next].map (Label.act session)

/-- Two transactions write to one chain, a third is rolled back, and a fourth has no tenant. -/
def noteRuns : List (Label Action) :=
  (noteRun 2 (some 7) "lost" 50 30).dropLast ++ .rollback 2 :: noteRun 0 (some 7) "n1" 100 20 ++
    noteRun 1 (some 7) "n2" 90 10 ++ noteRun 0 none "n3" 80 40

/-- After these runs the chain of the tenant has its two events, in order, and is valid. -/
theorem current_epoch_valid_notes :
    ∃ s, run (step (auditWriters plainFunctions))
        (State.start (auditWriters plainFunctions)
          (sealLegacy plainFunctions (fun _ => 0) (fun _ => 0) [])) noteRuns = some s ∧
      (currentEpoch (some 7) s.committed).map Event.occurredAt = [100, 101] ∧
      ∀ limit, ∀ row ∈ verifyCurrentEpoch plainFunctions (some 7) limit s.committed,
        row.chainValid = true := by
  have hprobe : (run (step (auditWriters plainFunctions))
      (State.start (auditWriters plainFunctions)
        (sealLegacy plainFunctions (fun _ => 0) (fun _ => 0) [])) noteRuns).map
        (fun s => (currentEpoch (some 7) s.committed).map Event.occurredAt) = some [100, 101] := by
    decide
  obtain ⟨s, hs, hinstants⟩ := Option.map_eq_some_iff.mp hprobe
  exact ⟨s, hs, hinstants, (current_epoch_valid hs (some 7)).2.2⟩

end Stynx.AuditChain
