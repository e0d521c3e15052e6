import Stynx.TransitionRuns

/-!
# Transactions at read committed

Any number of sessions run transactions against one database. A statement reads the committed rows
under the rows that its own transaction has written. A written row is locked until its transaction
ends, and so is every key that a statement asks for by name; a key has one owner.

What a session does next is a function of what it reads, of the keys that it could have at once,
and of its phase. The last rule is the proof outline of such a system: what each session may
assert at its phase, and why no commit of another breaks it.
-/

namespace Stynx.ReadCommitted

open TransitionRuns

universe u v w x y

/-- What one session does next. -/
inductive Turn (κ : Type u) (ω : Type v) (π : Type w) where
  /-- Wait for a key, and own it to the end of the transaction. -/
  | lock (key : κ) (next : π)
  /-- Write a row; an existing row is locked by it. -/
  | write (row : ω) (next : π)
  /-- Read, and decide how to go on. -/
  | go (next : π)
  | commit (next : π)

/-- One session: the rows written by its open transaction, and its phase. -/
structure Session (ω : Type v) (π : Type w) where
  writes : List ω
  phase : π

/-- What the sessions do. -/
structure Program (σ : Type x) (κ : Type u) (ω : Type v) (π : Type w) (α : Type y) where
  /-- Effect of a row on the database. -/
  apply : σ → ω → σ
  /-- Key of the existing row that is written, if there is one. -/
  guard : ω → Option κ
  /-- Phase outside transactions. -/
  idle : π
  /-- Next turn, from what is read and from the keys that can be had at once. -/
  turn : σ → (κ → Bool) → π → α → Option (Turn κ ω π)

/-- The database, the owners of the keys, and the sessions. -/
structure State (σ : Type x) (κ : Type u) (ω : Type v) (π : Type w) where
  committed : σ
  owner : κ → Option Nat
  sessions : Nat → Session ω π

/-- A turn of one session. -/
inductive Label (α : Type y) where
  | act (session : Nat) (action : α)
  /-- The transaction of the session is rolled back. -/
  | rollback (session : Nat)

variable {σ : Type x} {κ : Type u} {ω : Type v} {π : Type w} {α : Type y}

/-- What a statement of a session reads. -/
def Session.view (p : Program σ κ ω π α) (db : σ) (session : Session ω π) : σ :=
  session.writes.foldl p.apply db

namespace State

/-- Every session is outside transactions. -/
def start (p : Program σ κ ω π α) (db : σ) : State σ κ ω π :=
  ⟨db, fun _ => none, fun _ => ⟨[], p.idle⟩⟩

/-- The session can have the key at once. -/
def available (s : State σ κ ω π) (i : Nat) (key : κ) : Bool :=
  s.owner key = none || s.owner key = some i

def Held (s : State σ κ ω π) (i : Nat) (key : κ) : Prop := s.owner key = some i

def put (s : State σ κ ω π) (i : Nat) (session : Session ω π) : State σ κ ω π :=
  { s with sessions := fun j => if j = i then session else s.sessions j }

/-- Give a key to a session. -/
def acquire [DecidableEq κ] (s : State σ κ ω π) (i : Nat) (key : κ) : State σ κ ω π :=
  { s with owner := fun k => if k = key then some i else s.owner k }

/-- Take all its keys from a session. -/
def release (s : State σ κ ω π) (i : Nat) : State σ κ ω π :=
  { s with owner := fun k => if s.owner k = some i then none else s.owner k }

end State

section

variable [DecidableEq κ] (p : Program σ κ ω π α)

/-- The effect of a turn of session `i`; a turn that has to wait is not enabled. -/
def takeTurn (s : State σ κ ω π) (i : Nat) : Turn κ ω π → Option (State σ κ ω π)
  | .lock key next =>
    if s.available i key then some ((s.acquire i key).put i ⟨(s.sessions i).writes, next⟩) else none
  | .write row next =>
    let session : Session ω π := ⟨(s.sessions i).writes ++ [row], next⟩
    match p.guard row with
    | none => some (s.put i session)
    | some key => if s.available i key then some ((s.acquire i key).put i session) else none
  | .go next => some (s.put i ⟨(s.sessions i).writes, next⟩)
  | .commit next =>
    some ({ s with committed := (s.sessions i).view p s.committed }.release i |>.put i ⟨[], next⟩)

def step (s : State σ κ ω π) : Label α → Option (State σ κ ω π)
  | .act i action =>
    match p.turn ((s.sessions i).view p s.committed) (s.available i) (s.sessions i).phase action with
    | some turn => takeTurn p s i turn
    | none => none
  | .rollback i => some ((s.release i).put i ⟨[], p.idle⟩)

end

def Locked (p : Program σ κ ω π α) (held : κ → Prop) (session : Session ω π) : Prop :=
  ∀ row ∈ session.writes, ∀ key, p.guard row = some key → held key

/-- What is known of a session at its phase. -/
structure At (p : Program σ κ ω π α) (inv : σ → Prop)
    (good : σ → (κ → Prop) → Session ω π → Prop) (db : σ) (held : κ → Prop)
    (session : Session ω π) : Prop where
  /-- Invariant of the committed rows. -/
  inv : inv db
  locked : Locked p held session
  /-- Assertion of its phase. -/
  good : good db held session

/-- A turn establishes the assertion of the next phase, and for a commit the invariant. -/
def Establishes (p : Program σ κ ω π α) (inv : σ → Prop)
    (good : σ → (κ → Prop) → Session ω π → Prop) (db : σ) (held : κ → Prop)
    (session : Session ω π) : Turn κ ω π → Prop
  | .lock key next => good db (fun k => k = key ∨ held k) ⟨session.writes, next⟩
  | .write row next =>
    good db (fun k => p.guard row = some k ∨ held k) ⟨session.writes ++ [row], next⟩
  | .go next => good db held ⟨session.writes, next⟩
  | .commit next => inv (session.view p db) ∧ good (session.view p db) (fun _ => False) ⟨[], next⟩

/-- An invariant of the committed rows, an assertion for each phase, and why they stay true. -/
structure Outline (p : Program σ κ ω π α) (inv : σ → Prop)
    (good : σ → (κ → Prop) → Session ω π → Prop) : Prop where
  /-- Outside transactions. -/
  idle : ∀ {db}, inv db → good db (fun _ => False) ⟨[], p.idle⟩
  turn : ∀ {db held free session action turn}, At p inv good db held session →
    p.turn (session.view p db) free session.phase action = some turn →
    Establishes p inv good db held session turn
  /-- A session keeps its assertion when another session commits. -/
  stable : ∀ {db held held' free session session' action next}, At p inv good db held session →
    At p inv good db held' session' → (∀ key, held key → ¬held' key) →
    p.turn (session'.view p db) free session'.phase action = some (.commit next) →
    good (session'.view p db) held session

/-- The invariant, and the assertion of every session. -/
structure Holds (p : Program σ κ ω π α) (inv : σ → Prop)
    (good : σ → (κ → Prop) → Session ω π → Prop) (s : State σ κ ω π) : Prop where
  inv : inv s.committed
  /-- Written rows are locked. -/
  locked : ∀ i, Locked p (s.Held i) (s.sessions i)
  good : ∀ i, good s.committed (s.Held i) (s.sessions i)

variable {p : Program σ κ ω π α} {inv : σ → Prop} {good : σ → (κ → Prop) → Session ω π → Prop}

variable {s t : State σ κ ω π} {i j : Nat}

theorem Holds.at (h : Holds p inv good s) (i : Nat) :
    At p inv good s.committed (s.Held i) (s.sessions i) := ⟨h.inv, h.locked i, h.good i⟩

@[simp] theorem Session.view_nil (db : σ) (phase : π) :
    (⟨[], phase⟩ : Session ω π).view p db = db := rfl

@[simp] theorem Session.view_write (db : σ) (session : Session ω π) (row : ω) (next : π) :
    (⟨session.writes ++ [row], next⟩ : Session ω π).view p db =
      p.apply (session.view p db) row := by
  simp [Session.view]

@[simp] theorem Session.view_phase (db : σ) (session : Session ω π) (next : π) :
    (⟨session.writes, next⟩ : Session ω π).view p db = session.view p db := rfl

@[simp] theorem State.start_committed (db : σ) : (State.start p db).committed = db := rfl

@[simp] theorem State.put_self (s : State σ κ ω π) (i : Nat) (session : Session ω π) :
    (s.put i session).sessions i = session := by simp [State.put]

theorem State.put_of_ne (s : State σ κ ω π) (h : j ≠ i) (session : Session ω π) :
    (s.put i session).sessions j = s.sessions j := by simp [State.put, h]

@[simp] theorem State.put_committed (s : State σ κ ω π) (i : Nat) (session : Session ω π) :
    (s.put i session).committed = s.committed := rfl

@[simp] theorem State.held_put (s : State σ κ ω π) (i j : Nat) (session : Session ω π) :
    (s.put i session).Held j = s.Held j := rfl

theorem State.not_held_of_held (hij : i ≠ j) {key : κ} (h : s.Held i key) : ¬s.Held j key := by
  intro hj
  have : some i = some j := h.symm.trans hj
  exact hij (Option.some.inj this)

@[simp] theorem State.held_release_self (s : State σ κ ω π) (i : Nat) :
    (s.release i).Held i = fun _ => False := by
  funext key
  simp only [State.Held, State.release, eq_iff_iff, iff_false]
  split <;> simp_all

theorem State.held_release_of_ne (s : State σ κ ω π) (h : j ≠ i) :
    (s.release i).Held j = s.Held j := by
  funext key
  simp only [State.Held, State.release, eq_iff_iff]
  split
  · rename_i hi
    simp [hi, h.symm]
  · rfl

@[simp] theorem State.release_committed (s : State σ κ ω π) (i : Nat) :
    (s.release i).committed = s.committed := rfl

@[simp] theorem State.release_sessions (s : State σ κ ω π) (i : Nat) :
    (s.release i).sessions = s.sessions := rfl

section

variable [DecidableEq κ]

section

variable (s : State σ κ ω π) (i : Nat) (key : κ)

@[simp] theorem State.acquire_committed : (s.acquire i key).committed = s.committed := rfl

@[simp] theorem State.acquire_sessions : (s.acquire i key).sessions = s.sessions := rfl

theorem State.held_acquire_self : (s.acquire i key).Held i = fun k => k = key ∨ s.Held i k := by
  funext k
  simp only [State.Held, State.acquire, eq_iff_iff]
  split <;> simp_all

end

theorem State.held_acquire_of_ne {s : State σ κ ω π} {i j : Nat} (h : j ≠ i) {key : κ}
    (havailable : s.available i key = true) : (s.acquire i key).Held j = s.Held j := by
  funext k
  simp only [State.Held, State.acquire, eq_iff_iff]
  by_cases hk : k = key
  · subst hk
    simp only [State.available, Bool.or_eq_true, decide_eq_true_eq] at havailable
    rcases havailable with hnone | hown
    · simp [hnone, h.symm]
    · simp [hown]
  · simp [hk]

end

def Commits (p : Program σ κ ω π α) (s : State σ κ ω π) (label : Label α) (i : Nat) : Prop :=
  ∃ action next, label = .act i action ∧
    p.turn ((s.sessions i).view p s.committed) (s.available i) (s.sessions i).phase action =
      some (.commit next)

theorem takeTurn_committed [DecidableEq κ] {turn : Turn κ ω π} (h : takeTurn p s i turn = some t)
    (hturn : ∀ next, turn ≠ .commit next) :
    t.committed = s.committed := by
  cases turn with
  | lock key next =>
    simp only [takeTurn] at h
    split at h
    · cases h
      rfl
    · cases h
  | write row next =>
    simp only [takeTurn] at h
    split at h
    · cases h
      rfl
    · split at h
      · cases h
        rfl
      · cases h
  | go next =>
    cases h
    rfl
  | commit next => exact absurd rfl (hturn next)

theorem step_committed [DecidableEq κ] {label : Label α} (h : step p s label = some t) :
    (t.committed = s.committed ∧ ∀ i, ¬Commits p s label i) ∨
      ∃ i, Commits p s label i ∧ t.committed = (s.sessions i).view p s.committed := by
  cases label with
  | rollback i =>
    cases h
    refine .inl ⟨rfl, ?_⟩
    rintro j ⟨action, next, hlabel, -⟩
    cases hlabel
  | act i action =>
    simp only [step] at h
    split at h
    · rename_i turn hturn
      by_cases hcommit : ∃ next, turn = .commit next
      · obtain ⟨next, rfl⟩ := hcommit
        cases h
        exact .inr ⟨i, ⟨action, next, rfl, hturn⟩, rfl⟩
      · refine .inl ⟨takeTurn_committed h fun next hnext => hcommit ⟨next, hnext⟩, ?_⟩
        rintro j ⟨action', next, hlabel, hturn'⟩
        cases hlabel
        rw [hturn] at hturn'
        exact hcommit ⟨next, Option.some.inj hturn'⟩
    · cases h

theorem Holds.put (h : Holds p inv good s) {session : Session ω π}
    (hcommitted : t.committed = s.committed) (hself : t.sessions i = session)
    (hsessions : ∀ j, j ≠ i → t.sessions j = s.sessions j)
    (hheld : ∀ j, j ≠ i → t.Held j = s.Held j) (hlocked : Locked p (t.Held i) session)
    (hgood : good s.committed (t.Held i) session) : Holds p inv good t where
  inv := hcommitted ▸ h.inv
  locked j := by
    by_cases hj : j = i
    · subst hj
      rw [hself]
      exact hlocked
    · rw [hsessions j hj, hheld j hj]
      exact h.locked j
  good j := by
    rw [hcommitted]
    by_cases hj : j = i
    · subst hj
      rw [hself]
      exact hgood
    · rw [hsessions j hj, hheld j hj]
      exact h.good j

theorem locked_nil (held : κ → Prop) (phase : π) : Locked p held ⟨[], phase⟩ :=
  fun _ hrow => absurd hrow List.not_mem_nil

theorem Outline.rollback (o : Outline p inv good) (h : Holds p inv good s) (i : Nat) :
    Holds p inv good ((s.release i).put i ⟨[], p.idle⟩) := by
  refine h.put (i := i) rfl (State.put_self _ _ _) (fun j hj => State.put_of_ne _ hj _)
    (fun j hj => State.held_release_of_ne s hj) (locked_nil _ _) ?_
  rw [State.held_put, State.held_release_self]
  exact o.idle h.inv

theorem Outline.commit_turn (o : Outline p inv good) (h : Holds p inv good s) {action : α}
    {next : π}
    (hturn : p.turn ((s.sessions i).view p s.committed) (s.available i) (s.sessions i).phase action =
      some (.commit next)) :
    Holds p inv good
      (({ s with committed := (s.sessions i).view p s.committed }.release i).put i ⟨[], next⟩) where
  inv := (o.turn (h.at i) hturn).1
  locked j := by
    by_cases hj : j = i
    · subst hj
      rw [State.put_self]
      exact locked_nil _ _
    · rw [State.put_of_ne _ hj, State.held_put, State.held_release_of_ne _ hj]
      exact h.locked j
  good j := by
    by_cases hj : j = i
    · subst hj
      rw [State.put_self, State.held_put, State.held_release_self]
      exact (o.turn (h.at j) hturn).2
    · rw [State.put_of_ne _ hj, State.held_put, State.held_release_of_ne _ hj]
      exact o.stable (h.at j) (h.at i) (fun key hkey => State.not_held_of_held hj hkey) hturn

theorem Outline.step [DecidableEq κ] (o : Outline p inv good) {label : Label α}
    (h : Holds p inv good s) (hstep : step p s label = some t) :
    Holds p inv good t := by
  cases label with
  | rollback i =>
    cases hstep
    exact o.rollback h i
  | act i action =>
    simp only [ReadCommitted.step] at hstep
    split at hstep
    · rename_i turn hturn
      cases turn with
      | lock key next =>
        simp only [takeTurn] at hstep
        split at hstep
        · rename_i hfree
          cases hstep
          refine h.put (i := i) rfl (State.put_self _ _ _) (fun j hj => State.put_of_ne _ hj _)
            (fun j hj => State.held_acquire_of_ne hj hfree) ?_ ?_
          · rw [State.held_put, State.held_acquire_self]
            exact fun row hrow k hk => .inr (h.locked i row hrow k hk)
          · rw [State.held_put, State.held_acquire_self]
            exact o.turn (h.at i) hturn
        · cases hstep
      | write row next =>
        have hgood : good _ _ _ := o.turn (h.at i) hturn
        simp only [takeTurn] at hstep
        split at hstep
        · rename_i hguard
          cases hstep
          have hheld : (fun k => p.guard row = some k ∨ s.Held i k) = s.Held i := by
            funext k
            simp [hguard]
          rw [hheld] at hgood
          refine h.put (i := i) rfl (State.put_self _ _ _) (fun j hj => State.put_of_ne _ hj _)
            (fun _ _ => rfl) ?_ hgood
          intro row' hrow' k hk
          rcases mem_concat_iff.mp hrow' with hold | rfl
          · exact h.locked i row' hold k hk
          · rw [hguard] at hk
            cases hk
        · rename_i key hguard
          split at hstep
          · rename_i hfree
            cases hstep
            have hheld : (fun k => p.guard row = some k ∨ s.Held i k) =
                fun k => k = key ∨ s.Held i k := by
              funext k
              simp [hguard, eq_comm]
            rw [hheld] at hgood
            refine h.put (i := i) rfl (State.put_self _ _ _) (fun j hj => State.put_of_ne _ hj _)
              (fun j hj => State.held_acquire_of_ne hj hfree) ?_ ?_
            · rw [State.held_put, State.held_acquire_self]
              intro row' hrow' k hk
              rcases mem_concat_iff.mp hrow' with hold | rfl
              · exact .inr (h.locked i row' hold k hk)
              · rw [hguard] at hk
                exact .inl (Option.some.inj hk).symm
            · rw [State.held_put, State.held_acquire_self]
              exact hgood
          · cases hstep
      | go next =>
        cases hstep
        exact h.put (i := i) rfl (State.put_self _ _ _) (fun j hj => State.put_of_ne _ hj _)
          (fun _ _ => rfl) (h.locked i) (o.turn (h.at i) hturn)
      | commit next =>
        cases hstep
        exact o.commit_turn h hturn
    · cases hstep

theorem Outline.start (o : Outline p inv good) {db : σ} (h : inv db) :
    Holds p inv good (State.start p db) where
  inv := h
  locked _ := locked_nil _ _
  good _ := by
    have hheld : (State.start p db).Held = fun _ _ => False := by
      funext i key
      simp [State.Held, State.start]
    rw [hheld]
    exact o.idle h

theorem Outline.run [DecidableEq κ] (o : Outline p inv good) {labels : List (Label α)}
    (h : Holds p inv good s) (hrun : run (ReadCommitted.step p) s labels = some t) :
    Holds p inv good t :=
  run_invariant (fun _ _ _ hs hstep => o.step hs hstep) h hrun

theorem Outline.committed_relation [DecidableEq κ] (o : Outline p inv good) {rel : σ → σ → Prop}
    (hrefl : ∀ db, rel db db) (htrans : ∀ a b c, rel a b → rel b c → rel a c)
    (hcommit : ∀ {db held free session action next}, At p inv good db held session →
      p.turn (session.view p db) free session.phase action = some (.commit next) →
      rel db (session.view p db))
    {labels : List (Label α)} (h : Holds p inv good s)
    (hrun : TransitionRuns.run (ReadCommitted.step p) s labels = some t) :
    rel s.committed t.committed := by
  have hstep : ∀ (s : State σ κ ω π) label t, Holds p inv good s →
      ReadCommitted.step p s label = some t → rel s.committed t.committed := by
    intro s label t hs hstep
    rcases step_committed hstep with ⟨hsame, -⟩ | ⟨i, ⟨action, next, -, hturn⟩, hnew⟩
    · rw [hsame]
      exact hrefl _
    · rw [hnew]
      exact hcommit (hs.at i) hturn
  exact run_relation (I := Holds p inv good) (R := fun s t => rel s.committed t.committed)
    (fun _ => hrefl _) (fun _ _ _ => htrans _ _ _) (fun _ _ _ hs hstep => o.step hs hstep) hstep h hrun

/-- A fact about the database that only the rows behind some keys change. -/
def Kept (p : Program σ κ ω π α) (keys : κ → Prop) (fact : σ → Prop) : Prop :=
  ∀ db row, (∀ key, p.guard row = some key → ¬keys key) → fact db → fact (p.apply db row)

theorem Kept.view {p : Program σ κ ω π α} {keys : κ → Prop} {fact : σ → Prop}
    (hkept : Kept p keys fact) {held : κ → Prop} {db : σ} {session : Session ω π}
    (hlocked : Locked p held session) (hkeys : ∀ key, keys key → ¬held key) (h : fact db) :
    fact (session.view p db) := by
  unfold Locked at hlocked
  unfold Session.view
  generalize session.writes = writes at hlocked
  induction writes generalizing db with
  | nil => exact h
  | cons row rest ih =>
    refine ih (hkept db row ?_ h) fun r hr => hlocked r (.tail row hr)
    intro key hguard hkey
    exact hkeys key hkey (hlocked row (.head _) key hguard)

end Stynx.ReadCommitted
