import Mathlib.Data.List.Count
import Stynx.EventStream
import Stynx.TransitionRuns

/-!
# Slots and counters of the event streams

Every event rewrites the variables of one connection, and gives its slot back
at most once while it does. A connection holds its slot exactly as long as its
stream is live, so the slots held for a key are its live streams.

An injected scheduler whose `cancel` throws would leave `close` before the slot
is given back. The results here are for schedulers that cancel.
-/

namespace Stynx.EventStream

open TransitionRuns OrderedMap

def Connection.streaming (c : Connection) : Bool := c.isOpened && !c.closed

def Connection.cappedBy (c : Connection) (limit : Nat) : Bool :=
  c.settings.maxConnectionsPerActor.any fun cap => cap ≤ (limit : ℚ)

def State.liveStreams (s : State) (key : String) : Nat :=
  s.connections.countP fun c => c.live && c.slotKey = key

/-- The live streams of a key that were opened under a cap of at most the limit. -/
def State.liveStreamsCappedBy (s : State) (key : String) (limit : Nat) : Nat :=
  s.connections.countP fun c => c.live && c.slotKey = key && c.cappedBy limit

section

/-- What holds between any two events. -/
structure Sound (s : State) : Prop where
  /-- A connection holds its slot exactly while its stream is live. -/
  coherent : ∀ (i : Nat) (c : Connection), s.connections[i]? = some c → c.reserved = c.live
  /-- Only an opened stream is closed. -/
  unopened : ∀ (i : Nat) (c : Connection), s.connections[i]? = some c →
    c.isOpened = false → c.closed = false
  slots : ∀ key, s.held key = s.connections.countP fun c => c.reserved && c.slotKey = key
  /-- Slots taken under a cap stay within it. -/
  caps : ∀ (key : String) (limit : Nat),
    (s.connections.countP fun c => c.reserved && c.slotKey = key && c.cappedBy limit) ≤ limit
  /-- A slot that is not held was given back once. -/
  released : ∀ (i : Nat) (c : Connection), s.connections[i]? = some c →
    s.released.count i = if c.reserved then 0 else 1
  /-- Only admitted connections gave a slot back. -/
  admitted : ∀ i ∈ s.released, i < s.connections.length
  /-- The gauge is the difference of the two counters. -/
  gauge : s.active = s.opened - s.closed
  /-- The gauge counts the streams that are open and not closed. -/
  streams : s.active = s.connections.countP Connection.streaming
  closers : ∀ i, i ∈ s.connectionClosers ↔ ∃ c, s.connections[i]? = some c ∧ c.streaming = true
  /-- No closer is registered twice. -/
  once : s.connectionClosers.Nodup

theorem sound_initial : Sound State.initial where
  coherent _ _ h := by cases h
  unopened _ _ h := by cases h
  slots _ := rfl
  caps _ limit := Nat.zero_le limit
  released _ _ h := by cases h
  admitted _ h := by cases h
  gauge := rfl
  streams := rfl
  closers i := by
    constructor
    · intro h
      cases h
    · rintro ⟨c, h, -⟩
      cases h
  once := List.nodup_nil

variable {i : Nat}

theorem countP_set_add {α : Type} (p : α → Bool) {l : List α} {a : α} (b : α) (h : l[i]? = some a) :
    (l.set i b).countP p + (if p a then 1 else 0) = l.countP p + (if p b then 1 else 0) := by
  obtain ⟨hi, rfl⟩ := List.getElem?_eq_some_iff.mp h
  have hle : (if p l[i] then 1 else 0) ≤ l.countP p := List.boole_getElem_le_countP hi
  rw [List.countP_set hi]
  omega

theorem held_giveBack (slots : OrderedMap String Int) (key key' : String)
    (hheld : 1 ≤ (slots.get? key).getD 0) :
    ((giveBack slots key).get? key').getD 0 =
      (slots.get? key').getD 0 - (if key = key' then 1 else 0) := by
  rw [giveBack]
  split_ifs with hremaining hkey hkey
  · subst hkey
    rw [get?_set_self]
    rfl
  · rw [get?_set_of_ne _ _ hkey]
    omega
  · subst hkey
    rw [get?_delete, if_pos rfl, Option.getD_none]
    omega
  · rw [get?_delete, if_neg hkey]
    omega

/-- How an event rewrites connection `i`: the slot is given back when it is no longer held. -/
structure Rewrites (i : Nat) (c c' : Connection) (s t : State) : Prop where
  connections : t.connections = s.connections.set i c'
  slotKey : c'.slotKey = c.slotKey
  settings : c'.settings = c.settings
  /-- No slot is taken. -/
  reserved : c'.reserved = true → c.reserved = true
  /-- The slot is held while the stream is live. -/
  coherent : c'.reserved = c'.live
  /-- Only an opened stream is closed. -/
  unopened : c'.isOpened = false → c'.closed = false
  slots : t.slots = if c.reserved && !c'.reserved then giveBack s.slots c.slotKey else s.slots
  /-- The slots given back. -/
  released : t.released = if c.reserved && !c'.reserved then s.released ++ [i] else s.released
  active : t.active + (if c.streaming then 1 else 0) = s.active + (if c'.streaming then 1 else 0)
  gauge : t.active - s.active = (t.opened - s.opened) - (t.closed - s.closed)
  closers : ∀ j, j ∈ t.connectionClosers ↔
    if j = i then c'.streaming = true else j ∈ s.connectionClosers
  /-- No closer is registered twice. -/
  once : t.connectionClosers.Nodup

theorem Sound.rewrite {c c' : Connection} {s t : State} (hs : Sound s)
    (hc : s.connections[i]? = some c) (h : Rewrites i c c' s t) : Sound t := by
  obtain ⟨hi, -⟩ := List.getElem?_eq_some_iff.mp hc
  have hget : ∀ (j : Nat) (d : Connection), t.connections[j]? = some d →
      (j = i ∧ d = c') ∨ (j ≠ i ∧ s.connections[j]? = some d) := by
    intro j d hd
    rw [h.connections, List.getElem?_set] at hd
    split_ifs at hd with hij
    · cases hd
      exact .inl ⟨hij.symm, rfl⟩
    · exact .inr ⟨fun hji => hij hji.symm, hd⟩
  have hcount := fun (p : Connection → Bool) => countP_set_add p c' hc
  refine ⟨?_, ?_, ?_, ?_, ?_, ?_, ?_, ?_, ?_, h.once⟩
  · intro j d hd
    rcases hget j d hd with ⟨-, rfl⟩ | ⟨-, hd⟩
    · exact h.coherent
    · exact hs.coherent j d hd
  · intro j d hd
    rcases hget j d hd with ⟨-, rfl⟩ | ⟨-, hd⟩
    · exact h.unopened
    · exact hs.unopened j d hd
  · intro key
    have hslots := hs.slots key
    have hkey := hcount fun c => c.reserved && c.slotKey = key
    rw [← h.connections, h.slotKey] at hkey
    rw [State.held] at hslots ⊢
    rw [h.slots]
    by_cases hback : (c.reserved && !c'.reserved) = true
    · rw [if_pos hback]
      rw [Bool.and_eq_true, Bool.not_eq_true'] at hback
      have hone : 1 ≤ (s.slots.get? c.slotKey).getD 0 := by
        have hown := hs.slots c.slotKey
        rw [State.held] at hown
        rw [hown]
        have hpos : 0 < s.connections.countP fun d => d.reserved && d.slotKey = c.slotKey :=
          List.countP_pos_iff.mpr ⟨c, List.mem_of_getElem? hc, by simp [hback.1]⟩
        omega
      rw [held_giveBack _ _ _ hone, hslots]
      simp only [hback.1, hback.2, Bool.true_and, Bool.false_and, decide_eq_true_eq,
        Bool.false_eq_true, if_false] at hkey
      split_ifs at hkey ⊢ <;> omega
    · rw [if_neg hback, hslots]
      have hsame : c'.reserved = c.reserved := by
        have hkept := h.reserved
        cases hold : c.reserved <;> cases hnew : c'.reserved <;> simp_all
      rw [hsame] at hkey
      omega
  · intro key limit
    have hcap := hs.caps key limit
    have hkey := hcount fun c => c.reserved && c.slotKey = key && c.cappedBy limit
    rw [← h.connections] at hkey
    have hcapped : c'.cappedBy limit = c.cappedBy limit := by
      rw [Connection.cappedBy, h.settings, Connection.cappedBy]
    have hle : (if c'.reserved && c'.slotKey = key && c'.cappedBy limit then 1 else 0) ≤
        if c.reserved && c.slotKey = key && c.cappedBy limit then 1 else 0 := by
      rw [h.slotKey, hcapped]
      have hkept := h.reserved
      cases hnew : c'.reserved with
      | false => simp
      | true => rw [hkept hnew]
    omega
  · intro j d hd
    rcases hget j d hd with ⟨rfl, rfl⟩ | ⟨hji, hd⟩
    · have hold := hs.released j c hc
      have hkept := h.reserved
      rw [h.released]
      cases hwas : c.reserved <;> cases hnow : d.reserved <;> simp_all
    · have hold := hs.released j d hd
      rw [← hold, h.released]
      split_ifs with hback
      · rw [List.count_append, List.count_singleton]
        simp [Ne.symm hji]
      · rfl
  · intro j hj
    rw [h.connections, List.length_set]
    rw [h.released] at hj
    split_ifs at hj with hback
    · rcases mem_concat_iff.mp hj with hj | rfl
      · exact hs.admitted j hj
      · exact hi
    · exact hs.admitted j hj
  · have hgauge := hs.gauge
    have hmove := h.gauge
    omega
  · have hstreams := hs.streams
    have hmove := h.active
    have hkey := hcount Connection.streaming
    rw [← h.connections] at hkey
    split_ifs at hmove hkey <;> omega
  · intro j
    rw [h.closers j]
    split_ifs with hji
    · subst hji
      rw [h.connections, List.getElem?_set_self hi]
      constructor
      · intro hstreaming
        exact ⟨c', rfl, hstreaming⟩
      · rintro ⟨d, hd, hstreaming⟩
        cases hd
        exact hstreaming
    · rw [hs.closers j, h.connections, List.getElem?_set_ne (Ne.symm hji)]

end

section

/-- The connection keeps its key, its slot and its stream. -/
structure SameStream (c c' : Connection) : Prop where
  slotKey : c'.slotKey = c.slotKey
  settings : c'.settings = c.settings
  reserved : c'.reserved = c.reserved
  live : c'.live = c.live
  streaming : c'.streaming = c.streaming
  /-- Before the opening block nothing closes. -/
  unopened : c'.isOpened = false → c.isOpened = false ∧ c'.closed = c.closed

/-- The connection keeps its key, and its slot and stream are gone. -/
structure EndedStream (c c' : Connection) : Prop where
  slotKey : c'.slotKey = c.slotKey
  settings : c'.settings = c.settings
  reserved : c'.reserved = false
  live : c'.live = false
  streaming : c'.streaming = false
  /-- Before the opening block nothing closes. -/
  unopened : c'.isOpened = false → c.isOpened = false ∧ c'.closed = c.closed

variable {s : State} {i : Nat} {c c' : Connection}

theorem live_of_isOpened (h : c.isOpened = true) : c.live = !c.closed := by
  rw [Connection.isOpened] at h
  rw [Connection.live]
  split at h
  · rename_i hphase
    rw [hphase]
  · rename_i hphase
    rw [hphase]
  · cases h

theorem live_of_disconnected (h : c.isOpened = false) (hd : c.disconnected = true) :
    c.live = false := by
  rw [Connection.isOpened] at h
  rw [Connection.live]
  cases hphase : c.phase <;> rw [hphase] at h <;> simp_all

section

variable (hkey : c'.slotKey = c.slotKey) (hsettings : c'.settings = c.settings)
include hkey hsettings

theorem EndedStream.of_closed (hreserved : c'.reserved = false) (hopened : c'.isOpened = true)
    (hclosed : c'.closed = true) :
    EndedStream c c' := by
  refine ⟨hkey, hsettings, hreserved, ?_, ?_, ?_⟩
  · rw [live_of_isOpened hopened, hclosed]
    rfl
  · rw [Connection.streaming, hclosed, Bool.not_true, Bool.and_false]
  · intro h
    rw [hopened] at h
    cases h

theorem EndedStream.of_preflight (hreserved : c'.reserved = false) (hopened : c.isOpened = false)
    (hopened' : c'.isOpened = false) (hclosed : c'.closed = c.closed) (hlive : c'.live = false) :
    EndedStream c c' := by
  refine ⟨hkey, hsettings, hreserved, hlive, ?_, fun _ => ⟨hopened, hclosed⟩⟩
  rw [Connection.streaming, hopened', Bool.false_and]

theorem SameStream.of_isOpened (hreserved : c'.reserved = c.reserved)
    (hclosed : c'.closed = c.closed) (hopened : c.isOpened = true) (hopened' : c'.isOpened = true) :
    SameStream c c' := by
  refine ⟨hkey, hsettings, hreserved, ?_, ?_, ?_⟩
  · rw [live_of_isOpened hopened', live_of_isOpened hopened, hclosed]
  · rw [Connection.streaming, Connection.streaming, hopened', hopened, hclosed]
  · intro h
    rw [hopened'] at h
    cases h

theorem SameStream.of_phase (hreserved : c'.reserved = c.reserved) (hclosed : c'.closed = c.closed)
    (hdisconnected : c'.disconnected = c.disconnected) (hphase : c'.phase = c.phase) :
    SameStream c c' := by
  have hopened : c'.isOpened = c.isOpened := by
    rw [Connection.isOpened, Connection.isOpened, hphase]
  refine ⟨hkey, hsettings, hreserved, ?_, ?_, ?_⟩
  · rw [Connection.live, Connection.live, hphase, hdisconnected, hclosed]
  · rw [Connection.streaming, Connection.streaming, hopened, hclosed]
  · intro h
    exact ⟨hopened.symm.trans h, hclosed⟩

end

theorem Sound.counters (hs : Sound s) (frames drops : Int) :
    Sound { s with frames := frames, drops := drops } :=
  ⟨hs.coherent, hs.unopened, hs.slots, hs.caps, hs.released, hs.admitted, hs.gauge, hs.streams, hs.closers,
    hs.once⟩

theorem unopened_of (hs : Sound s) (hc : s.connections[i]? = some c)
    (h : c'.isOpened = false → c.isOpened = false ∧ c'.closed = c.closed) (hopened : c'.isOpened = false) :
    c'.closed = false := by
  obtain ⟨hopened, hclosed⟩ := h hopened
  rw [hclosed]
  exact hs.unopened i c hc hopened

theorem Sound.put (hs : Sound s) (hc : s.connections[i]? = some c) (h : SameStream c c') :
    Sound (s.put i c') := by
  refine hs.rewrite hc
    ⟨rfl, h.slotKey, h.settings, ?_, ?_, unopened_of hs hc h.unopened, ?_, ?_, ?_, ?_, ?_, hs.once⟩
  · rw [h.reserved]
    exact id
  · rw [h.reserved, h.live]
    exact hs.coherent i c hc
  · rw [h.reserved, Bool.and_not_self]
    rfl
  · rw [h.reserved, Bool.and_not_self]
    rfl
  · rw [h.streaming]
    rfl
  · dsimp only [State.put]
    omega
  · intro j
    split_ifs with hji
    · subst hji
      rw [State.put, hs.closers j, h.streaming, hc]
      simp
    · rfl

theorem release_fst (s : State) (i : Nat) (c : Connection) :
    (release s i c).1 =
      { s with
        slots := if c.reserved then giveBack s.slots c.slotKey else s.slots
        released := if c.reserved then s.released ++ [i] else s.released } := by
  rw [release]
  split_ifs <;> rfl

theorem release_snd (s : State) (i : Nat) (c : Connection) :
    (release s i c).2 = { c with reserved := false } := by
  rw [release]
  split_ifs with h
  · rfl
  · rw [Bool.not_eq_true] at h
    rw [← h]

variable {t : State}

theorem Sound.end_preflight (hs : Sound s) (hc : s.connections[i]? = some c)
    (hpreflight : c.isOpened = false) (h : EndedStream c c') (ht : t = (release s i c).1.put i c') :
    Sound t := by
  have hstreaming : c.streaming = false := by rw [Connection.streaming, hpreflight, Bool.false_and]
  rw [ht, release_fst]
  refine hs.rewrite hc
    ⟨rfl, h.slotKey, h.settings, ?_, ?_, unopened_of hs hc h.unopened, ?_, ?_, ?_, ?_, ?_, hs.once⟩
  · rw [h.reserved]
    intro hfalse
    cases hfalse
  · rw [h.reserved, h.live]
  · rw [h.reserved, Bool.not_false, Bool.and_true]
    rfl
  · rw [h.reserved, Bool.not_false, Bool.and_true]
    rfl
  · rw [h.streaming, hstreaming]
    rfl
  · dsimp only [State.put]
    omega
  · intro j
    dsimp only [State.put]
    by_cases hji : j = i
    · subst hji
      rw [if_pos rfl, hs.closers j, h.streaming, hc]
      simp [hstreaming]
    · rw [if_neg hji]

theorem Sound.end_stream (hs : Sound s) (hc : s.connections[i]? = some c)
    (hopened : c.isOpened = true) (hclosed : c.closed = false) (h : EndedStream c c')
    (ht : t =
      { s with
        slots := giveBack s.slots c.slotKey
        released := s.released ++ [i]
        connectionClosers := s.connectionClosers.erase i
        active := s.active - 1
        closed := s.closed + 1
        connections := s.connections.set i c' }) : Sound t := by
  have hstreaming : c.streaming = true := by
    rw [Connection.streaming, hopened, hclosed]
    rfl
  have hlive : c.reserved = true := by
    rw [hs.coherent i c hc, live_of_isOpened hopened, hclosed]
    rfl
  subst ht
  refine hs.rewrite hc
    ⟨rfl, h.slotKey, h.settings, ?_, ?_, unopened_of hs hc h.unopened, ?_, ?_, ?_, ?_, ?_,
      hs.once.erase i⟩
  · rw [h.reserved]
    intro hfalse
    cases hfalse
  · rw [h.reserved, h.live]
  · rw [hlive, h.reserved]
    rfl
  · rw [hlive, h.reserved]
    rfl
  · rw [hstreaming, h.streaming]
    dsimp only
    simp
  · dsimp only
    omega
  · intro j
    dsimp only
    rw [hs.once.mem_erase_iff]
    split_ifs with hji
    · simp [hji, h.streaming]
    · simp [hji]

end

variable {ports : Ports} {s : State} {i : Nat} {c : Connection}

theorem cancelAll_eq {throws : Schedule → Bool} (h : ∀ schedule, throws schedule = false)
    (timers : List Timer) :
    cancelAll throws timers = (timers.map fun timer => { timer with cancelled := true }, false) := by
  induction timers with
  | nil => rfl
  | cons timer rest ih => rw [cancelAll, h, if_neg Bool.false_ne_true, ih, List.map_cons]

theorem close_of_closed (hclosed : c.closed = true) : close ports s i c = (s, c, false) := by
  rw [close, if_pos hclosed]

theorem close_of_open (hcancel : ∀ i schedule, ports.cancelThrows i schedule = false)
    (hclosed : c.closed = false) :
    close ports s i c =
      ({ s with
          slots := if c.reserved then giveBack s.slots c.slotKey else s.slots
          released := if c.reserved then s.released ++ [i] else s.released
          connectionClosers := s.connectionClosers.erase i
          active := s.active - 1
          closed := s.closed + 1 },
        { c with
          closed := true
          schedules := c.schedules.map fun timer => { timer with cancelled := true }
          reserved := false }, false) := by
  rw [close, hclosed, if_neg Bool.false_ne_true, cancelAll_eq (hcancel i)]
  dsimp only
  rw [if_neg Bool.false_ne_true, release_fst, release_snd]

theorem close_keeps (ports : Ports) (s : State) (i : Nat) (c : Connection) :
    (close ports s i c).2.1.slotKey = c.slotKey ∧ (close ports s i c).2.1.settings = c.settings ∧
      (close ports s i c).2.1.phase = c.phase := by
  rw [close]
  split_ifs
  · exact ⟨rfl, rfl, rfl⟩
  · dsimp only
    split_ifs
    · exact ⟨rfl, rfl, rfl⟩
    · rw [release_snd]
      exact ⟨rfl, rfl, rfl⟩

section

variable (hcancel : ∀ i schedule, ports.cancelThrows i schedule = false)
include hcancel

theorem sound_shutdown (hs : Sound s) (hi : i ∈ s.connectionClosers) :
    Sound (shutdown ports s i).1 ∧ (shutdown ports s i).2 = false ∧
      (shutdown ports s i).1.connectionClosers = s.connectionClosers.erase i := by
  obtain ⟨c, hc, hstreaming⟩ := (hs.closers i).mp hi
  rw [Connection.streaming, Bool.and_eq_true, Bool.not_eq_true'] at hstreaming
  obtain ⟨hopened, hclosed⟩ := hstreaming
  have hlive : c.reserved = true := by
    rw [hs.coherent i c hc, live_of_isOpened hopened, hclosed]
    rfl
  rw [shutdown, hc]
  dsimp only
  rw [close_of_open hcancel hclosed, if_neg Bool.false_ne_true, hlive, if_pos rfl, if_pos rfl]
  refine ⟨hs.end_stream hc hopened hclosed ?_ rfl, rfl, rfl⟩
  exact .of_closed rfl rfl rfl hopened rfl

theorem sound_shutdownAll (closers : List Nat) (hnodup : closers.Nodup) (s : State) (hs : Sound s)
    (hclosers : ∀ j ∈ closers, j ∈ s.connectionClosers) :
    Sound (shutdownAll ports s closers) := by
  induction closers generalizing s with
  | nil => exact hs
  | cons j rest ih =>
    obtain ⟨hsound, hthrew, herase⟩ := sound_shutdown hcancel hs (hclosers j (.head _))
    obtain ⟨hj, hrest⟩ := List.nodup_cons.mp hnodup
    rw [shutdownAll]
    split
    · rename_i t ht
      rw [ht] at hthrew
      cases hthrew
    · rename_i t ht
      rw [ht] at hsound herase
      refine ih hrest t hsound ?_
      intro k hk
      dsimp only at herase
      rw [herase, hs.once.mem_erase_iff]
      refine ⟨?_, hclosers k (.tail j hk)⟩
      rintro rfl
      exact hj hk

theorem sound_disconnected (hs : Sound s) (hc : s.connections[i]? = some c) :
    Sound (responseClosed ports s i c) := by
  rw [responseClosed, markDisconnected]
  dsimp only
  rw [release_fst, release_snd]
  cases hopened : c.isOpened with
  | false =>
    have hsame : ({ c with disconnected := true, reserved := false } : Connection).isOpened = false :=
      hopened
    rw [hsame, if_neg Bool.false_ne_true]
    refine hs.end_preflight hc hopened ?_ (by rw [release_fst])
    exact .of_preflight rfl rfl rfl hopened hopened rfl (live_of_disconnected hsame rfl)
  | true =>
    have hsame : ({ c with disconnected := true, reserved := false } : Connection).isOpened = true :=
      hopened
    rw [hsame, if_pos rfl]
    have hreserved : c.reserved = !c.closed := by
      rw [hs.coherent i c hc, live_of_isOpened hopened]
    cases hclosed : c.closed with
    | true =>
      rw [hclosed, Bool.not_true] at hreserved
      rw [close_of_closed (by rfl), hreserved]
      refine hs.put hc ?_
      exact .of_isOpened rfl rfl hreserved.symm hclosed.symm hopened hopened
    | false =>
      rw [hclosed, Bool.not_false] at hreserved
      rw [close_of_open hcancel (by rfl), hreserved, if_pos rfl, if_pos rfl]
      refine hs.end_stream hc hopened hclosed ?_ rfl
      exact .of_closed rfl rfl rfl hopened rfl

end

variable {d : Connection} {visible : Option Row} {calls : List OpeningCall}

section

variable (hcancel : ∀ i schedule, ports.cancelThrows i schedule = false) (hs : Sound s)
  (hc : s.connections[i]? = some c)
include hcancel hs hc

theorem sound_close (hopened : c.isOpened = true) (hkey : d.slotKey = c.slotKey)
    (hsettings : d.settings = c.settings)
    (hreserved : d.reserved = (close ports s i c).2.1.reserved)
    (hclosed : d.closed = (close ports s i c).2.1.closed) (hopened' : d.isOpened = true) :
    Sound ((close ports s i c).1.put i d) := by
  cases hwas : c.closed with
  | true =>
    rw [close_of_closed hwas] at hreserved hclosed ⊢
    exact hs.put hc (.of_isOpened hkey hsettings hreserved hclosed hopened hopened')
  | false =>
    have hlive : c.reserved = true := by
      rw [hs.coherent i c hc, live_of_isOpened hopened, hwas]
      rfl
    rw [close_of_open hcancel hwas] at hreserved hclosed ⊢
    rw [hlive, if_pos rfl, if_pos rfl]
    refine hs.end_stream hc hopened hwas ?_ rfl
    exact .of_closed hkey hsettings hreserved hopened' hclosed

theorem sound_requestClosed (complete aborted : Bool) :
    Sound (requestClosed ports s i c complete aborted) := by
  rw [requestClosed]
  split_ifs with hread
  · dsimp only
    split_ifs with hopened
    · rw [Bool.and_eq_true] at hopened
      obtain ⟨hkey, hsettings, hphase⟩ := close_keeps ports s i c
      refine sound_close hcancel hs hc hopened.1 hkey hsettings rfl rfl ?_
      rw [Connection.isOpened, hphase]
      exact hopened.1
    · exact hs.put hc (.of_phase rfl rfl rfl rfl rfl rfl)
  · have hsame : (markDisconnected s i c).2.disconnected = true := by
      rw [markDisconnected, release_snd]
    dsimp only
    rw [hsame, Bool.and_true]
    exact sound_disconnected hcancel hs hc

end

theorem Sound.take (hs : Sound s) (hreserved : c.reserved = true) (hlive : c.live = true)
    (hopened : c.isOpened = false) (hclosed : c.closed = false)
    (hcap : ∀ cap, c.settings.maxConnectionsPerActor = some cap → (s.held c.slotKey : ℚ) < cap) :
    Sound (take s c) := by
  have hget : ∀ (j : Nat) (d : Connection), (EventStream.take s c).connections[j]? = some d →
      (j = s.connections.length ∧ d = c) ∨ s.connections[j]? = some d := by
    intro j d hd
    rw [EventStream.take, List.getElem?_append] at hd
    split_ifs at hd with hj
    · exact .inr hd
    · rw [List.getElem?_singleton] at hd
      split_ifs at hd with hzero
      cases hd
      exact .inl ⟨by omega, rfl⟩
  have hnew : s.connections.length ∉ s.released := by
    intro hmem
    exact absurd (hs.admitted _ hmem) (lt_irrefl _)
  have hstreaming : c.streaming = false := by rw [Connection.streaming, hopened, Bool.false_and]
  refine ⟨?_, ?_, ?_, ?_, ?_, ?_, hs.gauge, ?_, ?_, hs.once⟩
  · intro j d hd
    rcases hget j d hd with ⟨-, rfl⟩ | hd
    · rw [hreserved, hlive]
    · exact hs.coherent j d hd
  · intro j d hd
    rcases hget j d hd with ⟨-, rfl⟩ | hd
    · exact fun _ => hclosed
    · exact hs.unopened j d hd
  · intro key
    dsimp only [EventStream.take, State.held]
    have hslots := hs.slots key
    rw [State.held] at hslots
    rw [get?_set, List.countP_append, List.countP_singleton, hreserved, Bool.true_and]
    by_cases hkey : c.slotKey = key
    · subst hkey
      rw [if_pos rfl, Option.getD_some, hslots, if_pos (decide_eq_true rfl)]
      push_cast
      rfl
    · rw [if_neg hkey, hslots, if_neg (by simpa using hkey)]
      rfl
  · intro key limit
    dsimp only [EventStream.take]
    have hcaps := hs.caps key limit
    rw [List.countP_append, List.countP_singleton]
    split_ifs with hcounted
    · simp only [Bool.and_eq_true, decide_eq_true_eq] at hcounted
      obtain ⟨⟨-, hkey⟩, hcapped⟩ := hcounted
      subst hkey
      rw [Connection.cappedBy] at hcapped
      cases hmax : c.settings.maxConnectionsPerActor with
      | none =>
        rw [hmax] at hcapped
        cases hcapped
      | some cap =>
        rw [hmax, Option.any_some, decide_eq_true_eq] at hcapped
        have hbelow : (s.held c.slotKey : ℚ) < (limit : ℚ) := lt_of_lt_of_le (hcap cap hmax) hcapped
        have hheld : s.held c.slotKey < limit := by exact_mod_cast hbelow
        rw [hs.slots] at hheld
        have hsub : (s.connections.countP fun d =>
            d.reserved && d.slotKey = c.slotKey && d.cappedBy limit) ≤
            s.connections.countP fun d => d.reserved && d.slotKey = c.slotKey := by
          refine List.countP_mono_left ?_
          intro d _ hd
          rw [Bool.and_eq_true] at hd
          exact hd.1
        omega
    · exact hcaps
  · intro j d hd
    rcases hget j d hd with ⟨rfl, rfl⟩ | hd
    · rw [hreserved, if_pos rfl]
      exact List.count_eq_zero.mpr hnew
    · exact hs.released j d hd
  · intro j hj
    dsimp only [EventStream.take]
    rw [List.length_append]
    exact Nat.lt_add_right _ (hs.admitted j hj)
  · dsimp only [EventStream.take]
    rw [List.countP_append, List.countP_singleton, hstreaming, hs.streams]
    rfl
  · intro j
    dsimp only [EventStream.take]
    rw [hs.closers j]
    constructor
    · rintro ⟨d, hd, hd'⟩
      obtain ⟨hj, -⟩ := List.getElem?_eq_some_iff.mp hd
      exact ⟨d, by rw [List.getElem?_append_left hj]; exact hd, hd'⟩
    · rintro ⟨d, hd, hd'⟩
      rcases hget j d hd with ⟨-, rfl⟩ | hd
      · rw [hstreaming] at hd'
        cases hd'
      · exact ⟨d, hd, hd'⟩

theorem below_cap_of_admitted {options : Options} {key : String} {settings : Settings}
    (h : admission ports s options = .admitted key settings) (cap : ℚ)
    (hcap : settings.maxConnectionsPerActor = some cap) : (s.held key : ℚ) < cap := by
  rw [admission] at h
  split at h
  · cases h
  · split at h
    · cases h
    · split at h
      · cases h
      · dsimp only at h
        split_ifs at h with hfull
        cases h
        rw [hcap, Option.any_some, decide_eq_true_eq, not_le] at hfull
        exact hfull

theorem sound_openStream (hs : Sound s) (headers : List (String × HeaderValue)) (options : Options) :
    Sound (openStream ports s headers options) := by
  rw [openStream]
  split
  · exact hs
  · exact hs
  · rename_i key settings hadmit
    dsimp only
    generalize (header headers "last-event-id").2 = lastId
    have hopened : (admittedConnection key settings lastId).isOpened = false := by
      cases lastId <;> rfl
    have hlive : (admittedConnection key settings lastId).live = true := by
      cases lastId <;> rfl
    have htaken : Sound (take s (admittedConnection key settings lastId)) :=
      hs.take rfl hlive hopened rfl (below_cap_of_admitted hadmit)
    split_ifs with hinvalid
    · have hc : (take s (admittedConnection key settings lastId)).connections[s.connections.length]? =
          some (admittedConnection key settings lastId) := by
        rw [take, List.getElem?_append_right (le_refl _), Nat.sub_self]
        rfl
      refine htaken.end_preflight hc hopened ?_ rfl
      rw [release_snd]
      exact .of_preflight rfl rfl rfl hopened rfl rfl rfl
    · exact htaken

theorem isOpened_of_phase_findById {lastId : String} (h : c.phase = .findById lastId) :
    c.isOpened = false := by
  rw [Connection.isOpened, h]

theorem isOpened_of_phase_now (h : c.phase = .now visible) : c.isOpened = false := by
  rw [Connection.isOpened, h]

theorem isOpened_of_phase_opening (h : c.phase = .opening calls) : c.isOpened = true := by
  rw [Connection.isOpened, h]

theorem streaming_of_phase_opening (h : c.phase = .opening calls) (hclosed : c.closed = false) :
    c.streaming = true := by
  rw [Connection.streaming, isOpened_of_phase_opening h, hclosed]
  rfl

section

variable (hs : Sound s) (hc : s.connections[i]? = some c)
include hs hc

theorem sound_preflightFailed (hopened : c.isOpened = false) :
    Sound (preflightFailed ports s i c) := by
  rw [preflightFailed]
  dsimp only
  refine hs.end_preflight hc hopened ?_ rfl
  rw [release_snd]
  exact .of_preflight rfl rfl rfl hopened rfl rfl rfl

theorem sound_returned (hopened : c.isOpened = false) (hgone : c.disconnected = true) :
    Sound (s.put i { c with phase := .returned }) := by
  refine hs.put hc ⟨rfl, rfl, rfl, ?_, ?_, fun _ => ⟨hopened, rfl⟩⟩
  · exact (live_of_disconnected hopened hgone).symm
  · rw [Connection.streaming, Connection.streaming, hopened, Bool.false_and]
    rfl

/-- A connection that is still there enters the opening block. -/
theorem sound_beginStream (hphase : c.phase = .now visible) (hgone : c.disconnected = false)
    (cursor : Cursor) :
    Sound (beginStream ports s i c cursor) := by
  have hopened : c.isOpened = false := isOpened_of_phase_now hphase
  have hclosed : c.closed = false := hs.unopened i c hc hopened
  have hstreaming : c.streaming = false := by rw [Connection.streaming, hopened, Bool.false_and]
  have hreserved : c.reserved = true := by
    rw [hs.coherent i c hc, Connection.live, hphase, hgone]
    rfl
  have hnot : i ∉ s.connectionClosers := by
    rw [hs.closers i]
    rintro ⟨d, hd, hd'⟩
    obtain rfl := Option.some.inj (hc.symm.trans hd)
    rw [hstreaming] at hd'
    cases hd'
  rw [beginStream]
  refine hs.rewrite hc ⟨rfl, rfl, rfl, ?_, ?_, ?_, ?_, ?_, ?_, ?_, ?_, ?_⟩
  · exact id
  · dsimp only [Connection.live]
    rw [hreserved, hclosed]
    rfl
  · intro h
    cases h
  · dsimp only
    rw [Bool.and_not_self]
    rfl
  · dsimp only
    rw [Bool.and_not_self]
    rfl
  · rw [hstreaming, streaming_of_phase_opening (by rfl) (by exact hclosed)]
    dsimp only
    simp
  · dsimp only
    omega
  · intro j
    rw [streaming_of_phase_opening (by rfl) (by exact hclosed), List.mem_append, List.mem_singleton]
    split_ifs with hji
    · simp [hji]
    · simp [hji]
  · dsimp only
    rw [List.nodup_append]
    refine ⟨hs.once, List.nodup_singleton i, ?_⟩
    rintro j hj k hk rfl
    rw [List.mem_singleton.mp hk] at hj
    exact hnot hj

theorem sound_nowReply (hphase : c.phase = .now visible) (reply : Option Int) :
    Sound (nowReply ports s i c visible reply) := by
  have hopened : c.isOpened = false := isOpened_of_phase_now hphase
  rw [nowReply.eq_def]
  split
  · exact sound_preflightFailed hs hc hopened
  · split
    · split_ifs with hold hgone
      · dsimp only
        refine hs.end_preflight hc hopened ?_ rfl
        rw [release_snd]
        exact .of_preflight rfl rfl rfl hopened rfl rfl rfl
      · exact sound_returned hs hc hopened hgone
      · exact sound_beginStream hs hc hphase (Bool.not_eq_true _ ▸ hgone) _
    · split_ifs with hgone
      · exact sound_returned hs hc hopened hgone
      · exact sound_beginStream hs hc hphase (Bool.not_eq_true _ ▸ hgone) _

end

theorem sameStream_write (chunk : String) : SameStream c (write c chunk) := by
  rw [write]
  split_ifs
  · exact .of_phase rfl rfl rfl rfl rfl rfl
  · exact .of_phase rfl rfl rfl rfl rfl rfl

theorem sameStream_startTick : SameStream c (startTick c) := by
  rw [startTick]
  split_ifs
  · exact .of_phase rfl rfl rfl rfl rfl rfl
  · exact .of_phase rfl rfl rfl rfl rfl rfl

theorem SameStream.trans {e : Connection} (h : SameStream c d) (h' : SameStream d e) :
    SameStream c e := by
  refine ⟨h'.slotKey.trans h.slotKey, h'.settings.trans h.settings, h'.reserved.trans h.reserved,
    h'.live.trans h.live, h'.streaming.trans h.streaming, ?_⟩
  intro he
  obtain ⟨hd, hclosed⟩ := h'.unopened he
  obtain ⟨hc, hclosed'⟩ := h.unopened hd
  exact ⟨hc, hclosed.trans hclosed'⟩

theorem performCall_keeps (c : Connection) (call : OpeningCall) :
    (performCall c call).slotKey = c.slotKey ∧ (performCall c call).settings = c.settings ∧
      (performCall c call).reserved = c.reserved ∧ (performCall c call).closed = c.closed := by
  cases call with
  | setHeader name value => exact ⟨rfl, rfl, rfl, rfl⟩
  | flushHeaders => exact ⟨rfl, rfl, rfl, rfl⟩
  | write chunk =>
    rw [performCall, write]
    split_ifs
    · exact ⟨rfl, rfl, rfl, rfl⟩
    · exact ⟨rfl, rfl, rfl, rfl⟩
  | every schedule => exact ⟨rfl, rfl, rfl, rfl⟩

theorem sound_openingStep (hcancel : ∀ i schedule, ports.cancelThrows i schedule = false)
    (hs : Sound s) (hc : s.connections[i]? = some c) {call : OpeningCall} {rest : List OpeningCall}
    (hphase : c.phase = .opening (call :: rest)) (throws : Bool) :
    Sound (openingStep ports s i c call rest throws) := by
  have hopened : c.isOpened = true := isOpened_of_phase_opening hphase
  obtain ⟨hkey, hsettings, hreserved, hclosed⟩ := performCall_keeps c call
  rw [openingStep.eq_def]
  dsimp only
  by_cases hthrew : (throws && !skips c call) = true
  · rw [if_pos hthrew]
    obtain ⟨hkey, hsettings, -⟩ := close_keeps ports s i c
    exact sound_close hcancel hs hc hopened hkey hsettings rfl rfl rfl
  · rw [if_neg hthrew]
    have hdone : SameStream c { performCall c call with phase := .opened } :=
      .of_isOpened hkey hsettings hreserved hclosed hopened rfl
    split
    · split_ifs
      · exact hs.put hc (hdone.trans sameStream_startTick)
      · exact hs.put hc hdone
    · exact hs.put hc (.of_isOpened hkey hsettings hreserved hclosed hopened rfl)

theorem drop_spec (hs : Sound s) {row : Row} {throws : Bool} {t : State}
    (h : drop s c row throws = some (t, d)) :
    Sound t ∧ t.connections = s.connections ∧ SameStream c d := by
  rw [drop] at h
  split_ifs at h
  · cases h
    exact ⟨hs.counters _ _, rfl, sameStream_write _⟩
  · cases h
    exact ⟨hs.counters _ _, rfl, .of_phase rfl rfl rfl rfl rfl rfl⟩

section

variable (hs : Sound s) (hc : s.connections[i]? = some c)
include hs hc

theorem sound_handled (row : Row) (rest : List Row) {result : Option (State × Connection)}
    (hresult : ∀ t d, result = some (t, d) → Sound t ∧ t.connections = s.connections ∧ SameStream c d) :
    Sound (handled s i c row rest result) := by
  rw [handled.eq_def]
  split
  · exact hs.put hc (.of_phase rfl rfl rfl rfl rfl rfl)
  · rename_i t d
    obtain ⟨ht, hconnections, hsame⟩ := hresult t d rfl
    refine Sound.put ht (by rw [hconnections]; exact hc) ?_
    exact hsame.trans (.of_phase rfl rfl rfl rfl rfl rfl)

theorem sound_rowStep (rows : List Row) (throws : Bool) : Sound (rowStep s i c rows throws) := by
  rw [rowStep.eq_def]
  split
  · exact hs.put hc (.of_phase rfl rfl rfl rfl rfl rfl)
  · split_ifs
    · exact hs.put hc (.of_phase rfl rfl rfl rfl rfl rfl)
    · exact hs.put hc (.of_phase rfl rfl rfl rfl rfl rfl)
    · exact sound_handled hs hc _ _ fun t d h => drop_spec hs h

theorem sound_projectedStep (row : Row) (rest : List Row) (projection : Projection) (throws : Bool) :
    Sound (projectedStep s i c row rest projection throws) := by
  rw [projectedStep.eq_def]
  split
  · exact sound_handled hs hc _ _ fun t d h => drop_spec hs h
  · split_ifs
    · exact hs.put hc (.of_phase rfl rfl rfl rfl rfl rfl)
    · refine sound_handled hs hc _ _ ?_
      rintro t d h
      cases h
      exact ⟨hs, rfl, .of_phase rfl rfl rfl rfl rfl rfl⟩
  · split_ifs
    · exact hs.put hc (.of_phase rfl rfl rfl rfl rfl rfl)
    · exact sound_handled hs hc _ _ fun t d h => drop_spec hs h
    · refine sound_handled hs hc _ _ ?_
      intro t d h
      cases h
    · refine sound_handled hs hc _ _ ?_
      intro t d h
      cases h
      exact ⟨hs.counters _ _, rfl, sameStream_write _⟩

end

theorem sound_step (hcancel : ∀ i schedule, ports.cancelThrows i schedule = false) (s : State)
    (l : Label) (t : State) (hs : Sound s) (h : step ports s l = some t) : Sound t := by
  cases l with
  | openStream headers options =>
    cases h
    exact sound_openStream hs headers options
  | findReply i reply =>
    obtain ⟨c, hc, h⟩ := Option.bind_eq_some_iff.mp h
    split at h
    · rename_i lastId hphase
      cases h
      rw [findReply.eq_def]
      split
      · exact sound_preflightFailed hs hc (isOpened_of_phase_findById hphase)
      · refine hs.put hc ⟨rfl, rfl, rfl, ?_, ?_, fun _ => ⟨isOpened_of_phase_findById hphase, rfl⟩⟩
        · rw [Connection.live, Connection.live, hphase]
        · rw [Connection.streaming, Connection.streaming, isOpened_of_phase_findById hphase]
          rfl
    · cases h
  | nowReply i reply =>
    obtain ⟨c, hc, h⟩ := Option.bind_eq_some_iff.mp h
    split at h
    · rename_i visible hphase
      cases h
      exact sound_nowReply hs hc hphase reply
    · cases h
  | openingCall i throws =>
    obtain ⟨c, hc, h⟩ := Option.bind_eq_some_iff.mp h
    split at h
    · rename_i call rest hphase
      cases h
      exact sound_openingStep hcancel hs hc hphase throws
    · cases h
  | requestClose i complete aborted =>
    obtain ⟨c, hc, rfl⟩ := Option.map_eq_some_iff.mp h
    exact sound_requestClosed hcancel hs hc complete aborted
  | responseClose i =>
    obtain ⟨c, hc, rfl⟩ := Option.map_eq_some_iff.mp h
    exact sound_disconnected hcancel hs hc
  | heartbeat i throws =>
    obtain ⟨c, hc, h⟩ := Option.bind_eq_some_iff.mp h
    split_ifs at h
    · cases h
      exact hs
    · cases h
      exact hs.put hc (sameStream_write _)
  | tick i =>
    obtain ⟨c, hc, h⟩ := Option.bind_eq_some_iff.mp h
    split_ifs at h
    cases h
    exact hs.put hc sameStream_startTick
  | listReply i reply =>
    obtain ⟨c, hc, h⟩ := Option.bind_eq_some_iff.mp h
    split_ifs at h
    cases h
    exact hs.put hc (.of_phase rfl rfl rfl rfl rfl rfl)
  | row i throws =>
    obtain ⟨c, hc, h⟩ := Option.bind_eq_some_iff.mp h
    split at h
    · cases h
      exact sound_rowStep hs hc _ throws
    · cases h
  | projected i projection throws =>
    obtain ⟨c, hc, h⟩ := Option.bind_eq_some_iff.mp h
    split at h
    · cases h
      exact sound_projectedStep hs hc _ _ projection throws
    · cases h
  | destroy =>
    cases h
    exact sound_shutdownAll hcancel _ hs.once s hs fun _ hj => hj

/-- In every run the slots held for a key are its live streams; the live streams opened under a cap
of `limit` are at most `limit`, and so are all the slots of a key whose live streams are all so
capped; a slot was given back once if its stream is not live and never if it is; and the gauge is
the difference of the counters, and counts the open streams. -/
theorem slots_are_live_streams (ports : Ports)
    (hcancel : ∀ i schedule, ports.cancelThrows i schedule = false) (labels : List Label)
    (s : State) (hrun : run (step ports) State.initial labels = some s) :
    (∀ key, s.held key = s.liveStreams key) ∧
      (∀ key limit, s.liveStreamsCappedBy key limit ≤ limit) ∧
      (∀ (key : String) (limit : Nat), (∀ c ∈ s.connections, c.live = true → c.slotKey = key →
        c.cappedBy limit = true) → s.held key ≤ limit) ∧
      (∀ (i : Nat) (c : Connection), s.connections[i]? = some c →
        s.released.count i = if c.live then 0 else 1) ∧
      s.active = s.opened - s.closed ∧ s.active = s.connections.countP Connection.streaming := by
  have hs : Sound s := run_invariant (sound_step hcancel) sound_initial hrun
  have hcoherent : ∀ c ∈ s.connections, c.reserved = c.live := by
    intro c hc
    obtain ⟨i, hi⟩ := List.mem_iff_getElem?.mp hc
    exact hs.coherent i c hi
  have hheld : ∀ key, s.held key = s.liveStreams key := by
    intro key
    rw [hs.slots key, State.liveStreams]
    congr 1
    refine List.countP_congr ?_
    intro c hc
    rw [hcoherent c hc]
  have hcaps : ∀ key limit, s.liveStreamsCappedBy key limit ≤ limit := by
    intro key limit
    have hcounts : s.liveStreamsCappedBy key limit =
        s.connections.countP fun c => c.reserved && c.slotKey = key && c.cappedBy limit := by
      refine List.countP_congr ?_
      intro c hc
      rw [hcoherent c hc]
    rw [hcounts]
    exact hs.caps key limit
  refine ⟨hheld, hcaps, ?_, ?_, hs.gauge, hs.streams⟩
  · intro key limit hall
    have hcounts : s.liveStreams key = s.liveStreamsCappedBy key limit := by
      refine List.countP_congr ?_
      intro c hc
      simp only [Bool.and_eq_true, decide_eq_true_eq]
      constructor
      · rintro ⟨hlive, hkey⟩
        exact ⟨⟨hlive, hkey⟩, hall c hc hlive hkey⟩
      · exact fun h => h.1
    have hle := hcaps key limit
    rw [hheld key, hcounts]
    omega
  · intro i c hc
    rw [← hs.coherent i c hc]
    exact hs.released i c hc

theorem closers_shutdownAll (hcancel : ∀ i schedule, ports.cancelThrows i schedule = false)
    (closers : List Nat) (hnodup : closers.Nodup) (s : State) (hs : Sound s)
    (hclosers : ∀ j, j ∈ s.connectionClosers ↔ j ∈ closers) :
    (shutdownAll ports s closers).connectionClosers = [] := by
  induction closers generalizing s with
  | nil => exact List.eq_nil_iff_forall_not_mem.mpr fun j hj =>
      absurd ((hclosers j).mp hj) List.not_mem_nil
  | cons j rest ih =>
    obtain ⟨hsound, hthrew, herase⟩ := sound_shutdown hcancel hs ((hclosers j).mpr (.head _))
    obtain ⟨hj, hrest⟩ := List.nodup_cons.mp hnodup
    rw [shutdownAll]
    split
    · rename_i t ht
      rw [ht] at hthrew
      cases hthrew
    · rename_i t ht
      rw [ht] at hsound herase
      refine ih hrest t hsound fun k => ?_
      dsimp only at herase
      rw [herase, hs.once.mem_erase_iff, hclosers k, List.mem_cons]
      constructor
      · exact fun hk => hk.2.resolve_left hk.1
      · exact fun hk => ⟨fun heq => hj (heq ▸ hk), .inr hk⟩

/-- Whatever has happened before, the destruction of the module closes every open stream, and only
requests that still wait for their source hold slots. -/
theorem destroy_closes_streams (hcancel : ∀ i schedule, ports.cancelThrows i schedule = false)
    {labels : List Label} {t : State} (hrun : run (step ports) State.initial labels = some s)
    (hdestroy : step ports s .destroy = some t) :
    t.active = 0 ∧ (∀ c ∈ t.connections, c.isOpened = true → c.closed = true) ∧
      ∀ key, t.held key = t.connections.countP fun c =>
        !c.isOpened && c.live && c.slotKey = key := by
  have hs : Sound s := run_invariant (sound_step hcancel) sound_initial hrun
  have ht : Sound t := sound_step hcancel s .destroy t hs hdestroy
  have hnone : t.connectionClosers = [] := by
    cases hdestroy
    exact closers_shutdownAll hcancel _ hs.once s hs fun _ => Iff.rfl
  have hopen : ∀ c ∈ t.connections, c.streaming = false := by
    intro c hc
    obtain ⟨i, hi⟩ := List.mem_iff_getElem?.mp hc
    refine Bool.eq_false_iff.mpr fun hstreaming => ?_
    have hcloser := (ht.closers i).mpr ⟨c, hi, hstreaming⟩
    rw [hnone] at hcloser
    cases hcloser
  have hclosed : ∀ c ∈ t.connections, c.isOpened = true → c.closed = true := by
    intro c hc hopened
    simpa [Connection.streaming, hopened] using hopen c hc
  refine ⟨?_, hclosed, fun key => ?_⟩
  · rw [ht.streams, List.countP_eq_zero.mpr fun c hc => by simp [hopen c hc]]
    rfl
  · rw [ht.slots key]
    refine congrArg _ (List.countP_congr fun c hc => ?_)
    obtain ⟨i, hi⟩ := List.mem_iff_getElem?.mp hc
    rw [ht.coherent i c hi]
    cases hopened : c.isOpened with
    | false => rfl
    | true => simp [live_of_isOpened hopened, hclosed c hc hopened]

def singleStream : Options :=
  ⟨⟨some "acme", some "agent"⟩, none, none, none, none, none, some (.finite 1), none, none⟩

/-- A scheduler that cancels. -/
def samplePorts : Ports := ⟨fun _ => "1", fun _ _ => false⟩

/-- One stream fails at its second header, one ends in a shutdown, one stays in its preflight. -/
def refusedRun : List Label :=
  [.openStream [] singleStream, .openStream [] singleStream, .nowReply 0 (some 0),
    .openingCall 0 false, .openingCall 0 true, .responseClose 0, .openStream [] singleStream,
    .requestClose 1 true false, .nowReply 1 (some 5), .openStream [] singleStream, .destroy,
    .responseClose 1, .openStream [] singleStream]

theorem slots_are_live_streams_refusedRun :
    ∃ s, run (step samplePorts) State.initial refusedRun = some s ∧ s.connections.length = 3 ∧
      s.held (slotKey "acme" "agent") = 1 ∧ s.liveStreams (slotKey "acme" "agent") = 1 ∧
      s.released = [0, 1] ∧ s.active = s.opened - s.closed ∧ s.opened = 2 := by
  have hlast : (run (step samplePorts) State.initial refusedRun).map (fun s =>
      (s.connections.length, s.liveStreams (slotKey "acme" "agent"), s.released, s.opened)) =
      some (3, 1, [0, 1], 2) := by
    decide
  obtain ⟨s, hrun, hs⟩ := Option.map_eq_some_iff.mp hlast
  simp only [Prod.mk.injEq] at hs
  obtain ⟨hlength, hlive, hreleased, hopened⟩ := hs
  obtain ⟨hheld, -, -, -, hgauge, -⟩ :=
    slots_are_live_streams samplePorts (fun _ _ => rfl) refusedRun s hrun
  refine ⟨s, hrun, hlength, ?_, hlive, hreleased, hgauge, hopened⟩
  rw [hheld, hlive]
  rfl

theorem destroy_closes_streams_refusedRun :
    ∃ s t, run (step samplePorts) State.initial refusedRun = some s ∧
      step samplePorts s .destroy = some t ∧ t.active = 0 := by
  obtain ⟨s, hrun⟩ := Option.isSome_iff_exists.mp
    (by decide : (run (step samplePorts) State.initial refusedRun).isSome = true)
  exact ⟨s, _, hrun, rfl, (destroy_closes_streams (fun _ _ => rfl) hrun rfl).1⟩

end Stynx.EventStream
