import Stynx.Savepoints
import Stynx.TransitionRuns

/-!
# Nested transactions

`Database.tx` inside a transaction sets a savepoint on its connection and runs its callback. It
releases the savepoint when the callback resolves, and rolls back to it when the callback rejects
or the release fails. Callbacks may make several nested calls at once; the connection takes their
commands in the order in which they are sent.

The outer call has number 0, and a nested call that of its savepoint.
-/

namespace Stynx.NestedTransactions

open Savepoints
open TransitionRuns

/-- How far a call is. -/
inductive Status where
  | notMade
  | running
  /-- The callback has resolved, but the release has failed. -/
  | failing
  | returned
  | threw
  deriving DecidableEq

structure Statement (ε : Type) where
  call : Nat
  effect : ε
  deriving DecidableEq

/-- How the outer call has ended. -/
inductive Outcome (ε : Type) where
  | pending
  | committed (log : List (Statement ε))
  | rolledBack
  deriving DecidableEq

/-- The outer transaction and its nested calls. -/
structure Session (ε : Type) where
  connection : Connection Nat (Statement ε)
  savepointCounter : Nat
  /-- The calls within which a call was made, and the call itself. -/
  enclosing : Nat → List Nat
  status : Nat → Status
  executed : List (Statement ε)
  outcome : Outcome ε

/-- What may happen next. -/
inductive Label (ε : Type) where
  /-- A callback calls `tx`. -/
  | tx (parent : Nat)
  | query (call : Nat) (effect : ε)
  /-- A statement of a call that the database rejects. -/
  | queryFails (call : Nat)
  | resolve (call : Nat)
  /-- The rollback after a failed release. -/
  | rollBack (call : Nat)
  | reject (call : Nat)
  | commit
  /-- The callback of the outer call rejects. -/
  | rollback
  deriving DecidableEq

variable {ε : Type}

/-- The outer transaction begins. -/
def start : Session ε where
  connection := Connection.start
  savepointCounter := 0
  enclosing call := if call = 0 then [0] else []
  status call := if call = 0 then .running else .notMade
  executed := []
  outcome := .pending

section

variable (s : Session ε)

/-- `runNestedTransaction`, up to its callback. -/
def Session.tx (parent : Nat) : Session ε :=
  let call := s.savepointCounter + 1
  let reply := s.connection.savepoint call
  { s with
    connection := reply.2
    savepointCounter := call
    enclosing := Function.update s.enclosing call (call :: s.enclosing parent)
    status := Function.update s.status call (if reply.1 then .running else .threw) }

def Session.query (call : Nat) (effect : ε) : Session ε :=
  let reply := s.connection.execute ⟨call, effect⟩
  { s with
    connection := reply.2
    executed := if reply.1 then s.executed ++ [⟨call, effect⟩] else s.executed }

/-- A statement that the database rejects. -/
def Session.queryFails : Session ε := { s with connection := s.connection.fail }

/-- `runNestedTransaction`, after its callback has resolved. -/
def Session.resolve (call : Nat) : Session ε :=
  let reply := s.connection.release call
  { s with
    connection := reply.2
    status := Function.update s.status call (if reply.1 then .returned else .failing) }

/-- `runNestedTransaction`, where it catches an error. -/
def Session.rollBack (call : Nat) : Session ε :=
  { s with
    connection := (s.connection.rollbackTo call).2
    status := Function.update s.status call .threw }

/-- The end of `runTransaction`. -/
def Session.commit : Session ε :=
  { s with
    outcome :=
      match s.connection.commit with
      | some log => .committed log
      | none => .rolledBack }

/-- The outer call has not ended. -/
def Session.isPending : Bool :=
  match s.outcome with
  | .pending => true
  | _ => false

def step : Label ε → Option (Session ε)
  | .tx parent =>
    if s.isPending && s.status parent = .running then some (s.tx parent) else none
  | .query call effect =>
    if s.isPending && s.status call = .running then some (s.query call effect) else none
  | .queryFails call =>
    if s.isPending && s.status call = .running then some s.queryFails else none
  | .resolve call =>
    if s.isPending && call ≠ 0 && s.status call = .running then some (s.resolve call) else none
  | .rollBack call =>
    if s.isPending && call ≠ 0 && s.status call = .failing then some (s.rollBack call) else none
  | .reject call =>
    if s.isPending && call ≠ 0 && s.status call = .running then some (s.rollBack call) else none
  | .commit => if s.isPending then some s.commit else none
  | .rollback => if s.isPending then some { s with outcome := .rolledBack } else none

end

section

variable (s : Session ε)

def Session.undone (call : Nat) : Bool := (s.enclosing call).any fun k => s.status k = .threw

def Session.kept : List (Statement ε) := s.executed.filter fun statement => !s.undone statement.call

/-- No nested call has changed what another one did. -/
structure Isolated : Prop where
  /-- In force are the statements of the calls that have not thrown. -/
  inForce : s.connection.log = s.kept
  committed : ∀ log, s.outcome = .committed log → log = s.kept

def Session.IsOpen (call : Nat) : Prop := s.status call = .running ∨ s.status call = .failing

instance (call : Nat) : Decidable (s.IsOpen call) := inferInstanceAs (Decidable (_ ∨ _))

/-- The calls that were made after a call have ended. -/
def Session.IsLast (call : Nat) : Prop :=
  ∀ later ≤ s.savepointCounter, call < later → ¬s.IsOpen later

instance (call : Nat) : Decidable (s.IsLast call) :=
  inferInstanceAs (Decidable (∀ later ≤ s.savepointCounter, call < later → ¬s.IsOpen later))

/-- The statements in force since the savepoint of a call were made by the call, or within it. -/
def Session.OwnSince (call : Nat) : Prop :=
  ∀ point ∈ s.connection.savepoints, point.name = call →
    ∀ statement ∈ s.connection.log.drop point.log.length, call ∈ s.enclosing statement.call

instance (call : Nat) : Decidable (s.OwnSince call) :=
  inferInstanceAs (Decidable (∀ point ∈ s.connection.savepoints, point.name = call →
    ∀ statement ∈ s.connection.log.drop point.log.length, call ∈ s.enclosing statement.call))

/-- A call ends after the calls that were made later, and what it rolls back is its own. -/
def Orderly : Label ε → Prop
  | .resolve call => s.IsLast call
  | .rollBack call => s.IsLast call ∧ s.OwnSince call
  | .reject call => s.IsLast call ∧ s.OwnSince call
  | .commit => s.IsLast 0
  | _ => True

instance : ∀ label : Label ε, Decidable (Orderly s label)
  | .tx _ => isTrue trivial
  | .query _ _ => isTrue trivial
  | .queryFails _ => isTrue trivial
  | .resolve call => inferInstanceAs (Decidable (s.IsLast call))
  | .rollBack call => inferInstanceAs (Decidable (s.IsLast call ∧ s.OwnSince call))
  | .reject call => inferInstanceAs (Decidable (s.IsLast call ∧ s.OwnSince call))
  | .commit => inferInstanceAs (Decidable (s.IsLast 0))
  | .rollback => isTrue trivial

end

/-- What holds while calls end in order. -/
structure Nested (s : Session ε) : Prop where
  grows : s.connection.Grows
  ordered : s.connection.savepoints.Pairwise fun later earlier => earlier.name < later.name
  /-- Savepoints are those of calls. -/
  point_le : ∀ point ∈ s.connection.savepoints, point.name ≤ s.savepointCounter
  /-- The statements before a savepoint are those of calls made before. -/
  older : ∀ point ∈ s.connection.savepoints, ∀ statement ∈ point.log, statement.call < point.name
  executed_le : ∀ statement ∈ s.executed, statement.call ≤ s.savepointCounter
  /-- Calls are made within earlier ones. -/
  enclosing_le : ∀ call, ∀ k ∈ s.enclosing call, k ≤ call
  notMade : ∀ call, s.savepointCounter < call → s.status call = .notMade
  open_point : ∀ call, 0 < call → s.IsOpen call →
    ∃ point ∈ s.connection.savepoints, point.name = call
  /-- An open call is within open ones. -/
  open_enclosing : ∀ call, s.IsOpen call → ∀ k ∈ s.enclosing call, s.IsOpen k
  isolated : Isolated s

section

variable {s t : Session ε}

variable {call : Nat}

theorem undone_congr (henclosing : t.enclosing call = s.enclosing call)
    (hstatus : ∀ k ∈ s.enclosing call, (t.status k = .threw ↔ s.status k = .threw)) :
    t.undone call = s.undone call := by
  rw [Session.undone, Session.undone, henclosing, Bool.eq_iff_iff, List.any_eq_true,
    List.any_eq_true]
  refine exists_congr fun k => and_congr_right fun hk => ?_
  simp [hstatus k hk]

theorem kept_congr (hexecuted : t.executed = s.executed)
    (hundone : ∀ statement ∈ s.executed, t.undone statement.call = s.undone statement.call) :
    t.kept = s.kept := by
  rw [Session.kept, Session.kept, hexecuted]
  exact List.filter_congr fun statement hstatement => by rw [hundone statement hstatement]

theorem Nested.not_undone (h : Nested s) (hopen : s.IsOpen call) : s.undone call = false := by
  rw [Session.undone, List.any_eq_false]
  intro k hk hthrew
  have hstatus : s.status k = .threw := by simpa using hthrew
  have hk := h.open_enclosing call hopen k hk
  rw [Session.IsOpen, hstatus] at hk
  simp at hk

theorem Nested.open_le (h : Nested s) (hopen : s.IsOpen call) : call ≤ s.savepointCounter := by
  by_contra hlt
  rw [Session.IsOpen, h.notMade call (Nat.lt_of_not_le hlt)] at hopen
  simp at hopen

theorem start_nested : Nested (start : Session ε) where
  grows := Connection.start_grows
  ordered := List.Pairwise.nil
  point_le _ hpoint := absurd hpoint List.not_mem_nil
  older _ hpoint := absurd hpoint List.not_mem_nil
  executed_le _ hstatement := absurd hstatement List.not_mem_nil
  enclosing_le call k hk := by
    by_cases hcall : call = 0
    · simp only [start, if_pos hcall, List.mem_singleton] at hk
      omega
    · simp [start, if_neg hcall] at hk
  notMade call hcall := if_neg (by have hpos : 0 < call := hcall; omega)
  open_point call hcall hopen := by
    simp [Session.IsOpen, start, Nat.ne_of_gt hcall] at hopen
  open_enclosing call hopen k hk := by
    by_cases hcall : call = 0
    · simp only [start, if_pos hcall, List.mem_singleton] at hk
      rw [hk, ← hcall]
      exact hopen
    · simp [start, if_neg hcall] at hk
  isolated := ⟨rfl, fun log hlog => by cases hlog⟩

end

variable {s : Session ε}

variable {t : Session ε} {call : Nat}

theorem Nested.pending_isolated (hlog : t.connection.log = t.kept) (houtcome : t.outcome = .pending) :
    Isolated t :=
  ⟨hlog, fun log hlog => by rw [houtcome] at hlog; cases hlog⟩

theorem Session.outcome_of_isPending (h : s.isPending = true) : s.outcome = .pending := by
  rw [Session.isPending] at h
  split at h
  · assumption
  · cases h

theorem Nested.tx (h : Nested s) (hpending : s.isPending = true) {parent : Nat}
    (hparent : s.status parent = .running) : Nested (s.tx parent) := by
  have houtcome := Session.outcome_of_isPending hpending
  have hparentOpen : s.IsOpen parent := .inl hparent
  have hparentLe := h.open_le hparentOpen
  have hold : ∀ k ≤ s.savepointCounter, (s.tx parent).status k = s.status k :=
    fun k hk => Function.update_of_ne (by omega) _ _
  have hencl : ∀ k ≤ s.savepointCounter, (s.tx parent).enclosing k = s.enclosing k :=
    fun k hk => Function.update_of_ne (by omega) _ _
  have hnew : (s.tx parent).enclosing (s.savepointCounter + 1) =
      (s.savepointCounter + 1) :: s.enclosing parent := Function.update_self _ _ _
  have hlater : ∀ k, s.savepointCounter + 1 < k → (s.tx parent).status k = s.status k ∧
      (s.tx parent).enclosing k = s.enclosing k :=
    fun k hk => ⟨Function.update_of_ne (by omega) _ _, Function.update_of_ne (by omega) _ _⟩
  have hkept : (s.tx parent).kept = s.kept := by
    refine kept_congr rfl fun statement hstatement => ?_
    have hle := h.executed_le statement hstatement
    refine undone_congr (hencl _ hle) fun k hk => ?_
    rw [hold k (Nat.le_trans (h.enclosing_le _ k hk) hle)]
  -- the savepoint is set unless the transaction is aborted
  have hconnection : (s.connection.aborted = true ∧ (s.tx parent).connection = s.connection ∧
      (s.tx parent).status (s.savepointCounter + 1) = .threw) ∨
      (s.tx parent).connection = { s.connection with
        savepoints := ⟨s.savepointCounter + 1, s.connection.log⟩ :: s.connection.savepoints } := by
    cases haborted : s.connection.aborted with
    | true => exact .inl ⟨rfl, by simp [Session.tx, Connection.savepoint, haborted],
        by simp [Session.tx, Connection.savepoint, haborted]⟩
    | false => exact .inr (by simp [Session.tx, Connection.savepoint, haborted])
  have hlog : (s.tx parent).connection.log = s.connection.log := by
    rcases hconnection with ⟨-, hsame, -⟩ | hpush
    · rw [hsame]
    · rw [hpush]
  have hpoints : ∀ point ∈ s.connection.savepoints, point ∈ (s.tx parent).connection.savepoints := by
    intro point hpoint
    rcases hconnection with ⟨-, hsame, -⟩ | hpush
    · rwa [hsame]
    · rw [hpush]
      exact .tail _ hpoint
  have hcalls : ∀ statement ∈ s.connection.log, statement.call ≤ s.savepointCounter := by
    intro statement hstatement
    rw [h.isolated.inForce, Session.kept] at hstatement
    exact h.executed_le statement (List.mem_filter.mp hstatement).1
  have hopen : ∀ k, (s.tx parent).IsOpen k → k = s.savepointCounter + 1 ∨ s.IsOpen k := by
    intro k hk
    by_cases heq : k = s.savepointCounter + 1
    · exact .inl heq
    · refine .inr ?_
      rwa [Session.IsOpen, show (s.tx parent).status k = s.status k from
        Function.update_of_ne heq _ _] at hk
  have hkeep : ∀ k, s.IsOpen k → (s.tx parent).IsOpen k := by
    intro k hk
    rwa [Session.IsOpen, hold k (h.open_le hk)]
  refine ⟨?_, ?_, ?_, ?_, ?_, ?_, ?_, ?_, ?_, ?_⟩
  · rcases hconnection with ⟨-, hsame, -⟩ | hpush
    · rw [hsame]
      exact h.grows
    · rw [hpush]
      exact h.grows.push _
  · rcases hconnection with ⟨-, hsame, -⟩ | hpush
    · rw [hsame]
      exact h.ordered
    · rw [hpush]
      exact List.pairwise_cons.mpr
        ⟨fun point hpoint => Nat.lt_succ_of_le (h.point_le point hpoint), h.ordered⟩
  · intro point hpoint
    have hcounter : (s.tx parent).savepointCounter = s.savepointCounter + 1 := rfl
    rcases hconnection with ⟨-, hsame, -⟩ | hpush
    · rw [hsame] at hpoint
      have hle := h.point_le point hpoint
      omega
    · rw [hpush] at hpoint
      rcases List.mem_cons.mp hpoint with rfl | hpoint
      · exact le_rfl
      · have hle := h.point_le point hpoint
        omega
  · intro point hpoint
    rcases hconnection with ⟨-, hsame, -⟩ | hpush
    · rw [hsame] at hpoint
      exact h.older point hpoint
    · rw [hpush] at hpoint
      rcases List.mem_cons.mp hpoint with rfl | hpoint
      · exact fun statement hstatement => Nat.lt_succ_of_le (hcalls statement hstatement)
      · exact h.older point hpoint
  · exact fun statement hstatement => Nat.le_succ_of_le (h.executed_le statement hstatement)
  · intro call k hk
    by_cases heq : call = s.savepointCounter + 1
    · rw [heq, hnew] at hk
      rcases List.mem_cons.mp hk with rfl | hk
      · omega
      · have hle := h.enclosing_le parent k hk
        omega
    · rw [show (s.tx parent).enclosing call = s.enclosing call from
        Function.update_of_ne heq _ _] at hk
      exact h.enclosing_le call k hk
  · intro call hcall
    have hcounter : (s.tx parent).savepointCounter = s.savepointCounter + 1 := rfl
    rw [hcounter] at hcall
    rw [(hlater call hcall).1]
    exact h.notMade call (by omega)
  · intro call hpos hcall
    rcases hopen call hcall with rfl | hcall
    · rcases hconnection with ⟨-, -, hthrew⟩ | hpush
      · rw [Session.IsOpen, hthrew] at hcall
        simp at hcall
      · rw [hpush]
        exact ⟨_, (.head _), rfl⟩
    · obtain ⟨point, hpoint, hname⟩ := h.open_point call hpos hcall
      exact ⟨point, hpoints point hpoint, hname⟩
  · intro call hcall k hk
    rcases hopen call hcall with rfl | hcall'
    · rw [hnew] at hk
      rcases List.mem_cons.mp hk with rfl | hk
      · exact hcall
      · exact hkeep k (h.open_enclosing parent hparentOpen k hk)
    · rw [hencl call (h.open_le hcall')] at hk
      exact hkeep k (h.open_enclosing call hcall' k hk)
  · refine Nested.pending_isolated ?_ houtcome
    rw [hlog, hkept]
    exact h.isolated.inForce

theorem Nested.query (h : Nested s) (hpending : s.isPending = true)
    (hcall : s.status call = .running) (effect : ε) : Nested (s.query call effect) := by
  have houtcome := Session.outcome_of_isPending hpending
  cases haborted : s.connection.aborted with
  | true =>
    have hsame : s.query call effect = s := by simp [Session.query, Connection.execute, haborted]
    rw [hsame]
    exact h
  | false =>
    have hquery : s.query call effect = { s with
        connection := { s.connection with log := s.connection.log ++ [⟨call, effect⟩] }
        executed := s.executed ++ [⟨call, effect⟩] } := by
      simp [Session.query, Connection.execute, haborted]
    rw [hquery]
    refine ⟨h.grows.append _, h.ordered, h.point_le, h.older, ?_, h.enclosing_le, h.notMade,
      h.open_point, h.open_enclosing, Nested.pending_isolated ?_ houtcome⟩
    · intro statement hstatement
      rcases mem_concat_iff.mp hstatement with hold | rfl
      · exact h.executed_le statement hold
      · exact h.open_le (.inl hcall)
    · have hundone : s.undone call = false := h.not_undone (.inl hcall)
      have hlast : (s.executed ++ [Statement.mk call effect]).filter (fun statement =>
          !s.undone statement.call) = s.kept ++ [Statement.mk call effect] := by
        rw [List.filter_append, List.filter_cons_of_pos (by simp [hundone])]
        rfl
      rw [h.isolated.inForce]
      exact hlast.symm

theorem Nested.queryFails (h : Nested s) : Nested s.queryFails :=
  ⟨⟨h.grows.savepoints, h.grows.log⟩, h.ordered, h.point_le, h.older, h.executed_le,
    h.enclosing_le, h.notMade, h.open_point, h.open_enclosing,
    ⟨h.isolated.inForce, h.isolated.committed⟩⟩

theorem Nested.mem_rest (h : Nested s) {before rest : List (Savepoint Nat (Statement ε))}
    {point other : Savepoint Nat (Statement ε)}
    (hsplit : s.connection.savepoints = before ++ point :: rest)
    (hother : other ∈ s.connection.savepoints) (hlt : other.name < point.name) : other ∈ rest := by
  have hordered := h.ordered
  rw [hsplit] at hother hordered
  rcases List.mem_append.mp hother with hbefore | hafter
  · have hgt := (List.pairwise_append.mp hordered).2.2 other hbefore point (.head _)
    omega
  · rcases List.mem_cons.mp hafter with rfl | hrest
    · omega
    · exact hrest

theorem Nested.ends (h : Nested s) (hcall : s.IsOpen call) (hlast : s.IsLast call)
    (hended : ¬t.IsOpen call) (hstatus : ∀ k, k ≠ call → t.status k = s.status k)
    (henclosing : t.enclosing = s.enclosing) (hcounter : t.savepointCounter = s.savepointCounter)
    (hexecuted : t.executed = s.executed) (hgrows : t.connection.Grows)
    (hsuffix : t.connection.savepoints <:+ s.connection.savepoints)
    (hearlier : ∀ point ∈ s.connection.savepoints, point.name < call →
      point ∈ t.connection.savepoints)
    (hisolated : Isolated t) : Nested t := by
  have hopen : ∀ k, t.IsOpen k → k < call ∧ s.IsOpen k := by
    intro k hk
    have hne : k ≠ call := by
      intro heq
      exact hended (heq ▸ hk)
    have hk' : s.IsOpen k := by rwa [Session.IsOpen, hstatus k hne] at hk
    have hnot : ¬call < k := fun hlt => hlast k (h.open_le hk') hlt hk'
    exact ⟨by omega, hk'⟩
  refine ⟨hgrows, h.ordered.sublist hsuffix.sublist, ?_, ?_, ?_, ?_, ?_, ?_, ?_, hisolated⟩
  · intro point hpoint
    rw [hcounter]
    exact h.point_le point (hsuffix.subset hpoint)
  · exact fun point hpoint => h.older point (hsuffix.subset hpoint)
  · rw [hexecuted, hcounter]
    exact h.executed_le
  · rw [henclosing]
    exact h.enclosing_le
  · intro k hk
    rw [hcounter] at hk
    have hle := h.open_le hcall
    rw [hstatus k (by omega)]
    exact h.notMade k hk
  · intro k hpos hk
    obtain ⟨hlt, hk'⟩ := hopen k hk
    obtain ⟨point, hpoint, hname⟩ := h.open_point k hpos hk'
    exact ⟨point, hearlier point hpoint (by omega), hname⟩
  · intro k hk other hother
    obtain ⟨hlt, hk'⟩ := hopen k hk
    rw [henclosing] at hother
    have hle := h.enclosing_le k other hother
    rw [Session.IsOpen, hstatus other (by omega)]
    exact h.open_enclosing k hk' other hother

theorem kept_update (hcall : s.status call ≠ .threw) (hcall' : t.status call ≠ .threw)
    (hstatus : ∀ k, k ≠ call → t.status k = s.status k) (henclosing : t.enclosing = s.enclosing)
    (hexecuted : t.executed = s.executed) :
    t.kept = s.kept := by
  refine kept_congr hexecuted fun statement _ => undone_congr (by rw [henclosing]) fun k _ => ?_
  by_cases heq : k = call
  · rw [heq]
    exact iff_of_false hcall' hcall
  · rw [hstatus k heq]

theorem Nested.resolve (h : Nested s) (hpending : s.isPending = true) (hpos : call ≠ 0)
    (hcall : s.status call = .running) (hlast : s.IsLast call) : Nested (s.resolve call) := by
  have houtcome := Session.outcome_of_isPending hpending
  have hstatus : ∀ k, k ≠ call → (s.resolve call).status k = s.status k :=
    fun k hk => Function.update_of_ne hk _ _
  have hself : (s.resolve call).status call =
      if (s.connection.release call).1 then .returned else .failing := Function.update_self _ _ _
  have hkept : (s.resolve call).kept = s.kept := by
    refine kept_update (by simp [hcall] : s.status call ≠ .threw) ?_ hstatus rfl rfl
    rw [hself]
    split <;> simp
  cases haborted : s.connection.aborted with
  | true =>
    -- the release fails, and the call stays open
    have hconnection : (s.resolve call).connection = s.connection := by
      simp [Session.resolve, Connection.release, haborted]
    have hfailing : (s.resolve call).status call = .failing := by
      rw [hself]
      simp [Connection.release, haborted]
    have hopen : ∀ k, (s.resolve call).IsOpen k ↔ s.IsOpen k := by
      intro k
      by_cases heq : k = call
      · rw [Session.IsOpen, Session.IsOpen, heq, hfailing, hcall]
        simp
      · rw [Session.IsOpen, Session.IsOpen, hstatus k heq]
    refine ⟨hconnection ▸ h.grows, hconnection ▸ h.ordered, hconnection ▸ h.point_le,
      hconnection ▸ h.older, h.executed_le, h.enclosing_le, ?_, ?_, ?_,
      Nested.pending_isolated ?_ houtcome⟩
    · intro k hk
      have hle := h.open_le (.inl hcall)
      have hk' : s.savepointCounter < k := hk
      rw [hstatus k (by omega)]
      exact h.notMade k hk
    · intro k hk hkopen
      rw [hconnection]
      exact h.open_point k hk ((hopen k).mp hkopen)
    · intro k hkopen other hother
      exact (hopen other).mpr (h.open_enclosing k ((hopen k).mp hkopen) other hother)
    · rw [hconnection, hkept]
      exact h.isolated.inForce
  | false =>
    obtain ⟨before, point, rest, hsplit, hname, hrelease⟩ :=
      Connection.release_eq (h.open_point call (Nat.pos_of_ne_zero hpos) (.inl hcall)) haborted
    have hconnection : (s.resolve call).connection = { s.connection with savepoints := rest } := by
      rw [Session.resolve, hrelease]
    have hsplit' : s.connection.savepoints = (before ++ [point]) ++ rest := by
      rw [hsplit, List.append_assoc, List.singleton_append]
    refine h.ends (.inl hcall) hlast ?_ hstatus rfl rfl rfl ?_ ?_ ?_
      (Nested.pending_isolated ?_ houtcome)
    · rw [Session.IsOpen, hself, hrelease]
      simp
    · rw [hconnection]
      exact h.grows.drop hsplit'
    · rw [hconnection, hsplit']
      exact List.suffix_append _ _
    · intro other hother hlt
      rw [hconnection]
      exact h.mem_rest hsplit hother (hname ▸ hlt)
    · rw [hconnection, hkept]
      exact h.isolated.inForce

theorem Nested.rollBack (h : Nested s) (hpending : s.isPending = true) (hpos : call ≠ 0)
    (hcall : s.IsOpen call) (hlast : s.IsLast call) (hown : s.OwnSince call) :
    Nested (s.rollBack call) := by
  have houtcome := Session.outcome_of_isPending hpending
  have hstatus : ∀ k, k ≠ call → (s.rollBack call).status k = s.status k :=
    fun k hk => Function.update_of_ne hk _ _
  have hself : (s.rollBack call).status call = .threw := Function.update_self _ _ _
  obtain ⟨before, point, rest, hsplit, hname, hrollback⟩ :=
    Connection.rollbackTo_eq (h.open_point call (Nat.pos_of_ne_zero hpos) hcall)
  have hconnection : (s.rollBack call).connection = ⟨point.log, point :: rest, false⟩ := by
    rw [Session.rollBack, hrollback]
  have hpoint : point ∈ s.connection.savepoints := by
    rw [hsplit]
    exact List.mem_append_right _ (.head _)
  refine h.ends hcall hlast ?_ hstatus rfl rfl rfl ?_ ?_ ?_ (Nested.pending_isolated ?_ houtcome)
  · rw [Session.IsOpen, hself]
    simp
  · rw [hconnection]
    exact h.grows.rollback hsplit false
  · rw [hconnection, hsplit]
    exact List.suffix_append _ _
  · intro other hother hlt
    rw [hconnection]
    exact .tail _ (h.mem_rest hsplit hother (hname ▸ hlt))
  · -- what is undone is what was made within the call
    have hundone : ∀ k, (s.rollBack call).undone k =
        (s.undone k || decide (call ∈ s.enclosing k)) := by
      intro k
      rw [Bool.eq_iff_iff, Bool.or_eq_true, decide_eq_true_eq, Session.undone, Session.undone,
        List.any_eq_true, List.any_eq_true]
      simp only [decide_eq_true_eq]
      constructor
      · intro hthrew
        obtain ⟨other, hother, hthrew⟩ := hthrew
        by_cases heq : other = call
        · exact .inr (heq ▸ hother)
        · rw [hstatus other heq] at hthrew
          exact .inl ⟨other, hother, hthrew⟩
      · intro hthrew
        rcases hthrew with ⟨other, hother, hthrew⟩ | hwithin
        · refine ⟨other, hother, ?_⟩
          by_cases heq : other = call
          · rw [heq, hself]
          · rw [hstatus other heq, hthrew]
        · exact ⟨call, hwithin, hself⟩
    have hkept : (s.rollBack call).kept =
        s.connection.log.filter fun statement => call ∉ s.enclosing statement.call := by
      rw [h.isolated.inForce, Session.kept, Session.kept, List.filter_filter]
      refine List.filter_congr fun statement _ => ?_
      rw [hundone, Bool.not_or, Bool.and_comm]
      simp
    obtain ⟨since, hsince⟩ := h.grows.log point hpoint
    rw [hconnection, hkept, ← hsince, List.filter_append, List.filter_eq_self.mpr,
      List.filter_eq_nil_iff.mpr, List.append_nil]
    · intro statement hstatement houtside
      have hwithin := hown point hpoint hname statement (by
        rw [← hsince, List.drop_left]
        exact hstatement)
      exact of_decide_eq_true houtside hwithin
    · intro statement hstatement
      refine decide_eq_true fun hwithin => ?_
      have hlt := h.older point hpoint statement hstatement
      have hle := h.enclosing_le _ call hwithin
      omega

theorem step_nested {label : Label ε} (h : Nested s) (horderly : Orderly s label)
    (hstep : step s label = some t) : Nested t := by
  cases label with
  | tx parent =>
    obtain ⟨henabled, hsome⟩ := Option.ite_none_right_eq_some.mp hstep
    obtain rfl := Option.some.inj hsome
    simp only [Bool.and_eq_true, decide_eq_true_eq] at henabled
    exact h.tx henabled.1 henabled.2
  | query call effect =>
    obtain ⟨henabled, hsome⟩ := Option.ite_none_right_eq_some.mp hstep
    obtain rfl := Option.some.inj hsome
    simp only [Bool.and_eq_true, decide_eq_true_eq] at henabled
    exact h.query henabled.1 henabled.2 effect
  | queryFails call =>
    obtain ⟨-, hsome⟩ := Option.ite_none_right_eq_some.mp hstep
    obtain rfl := Option.some.inj hsome
    exact h.queryFails
  | resolve call =>
    obtain ⟨henabled, hsome⟩ := Option.ite_none_right_eq_some.mp hstep
    obtain rfl := Option.some.inj hsome
    simp only [Bool.and_eq_true, decide_eq_true_eq] at henabled
    exact h.resolve henabled.1.1 henabled.1.2 henabled.2 horderly
  | rollBack call =>
    obtain ⟨henabled, hsome⟩ := Option.ite_none_right_eq_some.mp hstep
    obtain rfl := Option.some.inj hsome
    simp only [Bool.and_eq_true, decide_eq_true_eq] at henabled
    exact h.rollBack henabled.1.1 henabled.1.2 (.inr henabled.2) horderly.1 horderly.2
  | reject call =>
    obtain ⟨henabled, hsome⟩ := Option.ite_none_right_eq_some.mp hstep
    obtain rfl := Option.some.inj hsome
    simp only [Bool.and_eq_true, decide_eq_true_eq] at henabled
    exact h.rollBack henabled.1.1 henabled.1.2 (.inl henabled.2) horderly.1 horderly.2
  | commit =>
    obtain ⟨-, hsome⟩ := Option.ite_none_right_eq_some.mp hstep
    obtain rfl := Option.some.inj hsome
    refine ⟨h.grows, h.ordered, h.point_le, h.older, h.executed_le, h.enclosing_le, h.notMade,
      h.open_point, h.open_enclosing, h.isolated.inForce, ?_⟩
    intro log hlog
    have hcommit : s.connection.commit = some log := by
      rw [Session.commit] at hlog
      dsimp only at hlog
      split at hlog
      · cases hlog
        assumption
      · cases hlog
    rw [Connection.commit] at hcommit
    split at hcommit
    · cases hcommit
    · cases hcommit
      exact h.isolated.inForce
  | rollback =>
    obtain ⟨-, hsome⟩ := Option.ite_none_right_eq_some.mp hstep
    obtain rfl := Option.some.inj hsome
    exact ⟨h.grows, h.ordered, h.point_le, h.older, h.executed_le, h.enclosing_le, h.notMade,
      h.open_point, h.open_enclosing, h.isolated.inForce, fun log hlog => by cases hlog⟩

/-- While each call ends after those made later, and rolls back only its own: in force are exactly
the statements of the calls that have not thrown and are not within one that has. -/
theorem nested_calls_isolated {labels : List (Label ε)} {s : Session ε}
    (horderly : RunMeets step Orderly start labels) (hrun : run step start labels = some s) :
    Isolated s :=
  (run_invariant_of_meets (fun _ _ _ h horderly hstep => step_nested h horderly hstep) start_nested
    horderly hrun).isolated

/-- A call and one within it that throws. -/
theorem nested_calls_isolated_in_turn :
    ∃ s : Session String, run step start [.tx 0, .query 1 "a", .tx 1, .query 2 "b", .reject 2,
        .resolve 1, .commit] = some s ∧
      s.outcome = .committed [⟨1, "a"⟩] ∧ Isolated s := by
  obtain ⟨s, hrun, houtcome⟩ : ∃ s : Session String, run step start [.tx 0, .query 1 "a", .tx 1,
      .query 2 "b", .reject 2, .resolve 1, .commit] = some s ∧ s.outcome = .committed [⟨1, "a"⟩] :=
    ⟨_, rfl, rfl⟩
  exact ⟨s, hrun, houtcome, nested_calls_isolated (by decide) hrun⟩

/-- The rollback of the first of two calls undoes what the second one did, which has returned. -/
theorem rollback_undoes_other_call :
    ∃ s : Session String, run step start [.tx 0, .tx 0, .query 2 "b", .resolve 2, .reject 1,
        .commit] = some s ∧
      s.status 1 = .threw ∧ s.status 2 = .returned ∧ s.enclosing 2 = [2, 0] ∧
      s.executed = [⟨2, "b"⟩] ∧ s.outcome = .committed [] ∧ ¬Isolated s := by
  refine ⟨_, rfl, rfl, rfl, rfl, rfl, rfl, ?_⟩
  intro hisolated
  have hlost := hisolated.inForce
  revert hlost
  decide

/-- The release of the first savepoint ends the second, and nothing is committed. -/
example : (run step start [.tx 0, .tx 0, .query 1 "a", .query 2 "b", .resolve 1, .resolve 2,
    .rollBack 2, .commit]).map (fun s : Session String => (s.status 1, s.status 2, s.outcome)) =
      some (.returned, .threw, .rolledBack) := by decide

end Stynx.NestedTransactions
