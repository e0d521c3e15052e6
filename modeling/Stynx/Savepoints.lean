import Mathlib.Data.List.Infix
import Mathlib.Data.List.Pairwise

/-!
# Savepoints

A transaction on one connection keeps a stack of savepoints. To release a
savepoint, or to roll back to it, ends the savepoints that were set after it; a
rollback also undoes the statements after it and keeps the savepoint itself. A
command that fails aborts the transaction: nothing but a rollback to a savepoint
works then, and a commit rolls everything back.
-/

namespace Stynx.Savepoints

universe u v

variable {ν : Type u} {σ : Type v}

structure Savepoint (ν : Type u) (σ : Type v) where
  name : ν
  /-- The statements in force when it was set. -/
  log : List σ

structure Connection (ν : Type u) (σ : Type v) where
  log : List σ
  savepoints : List (Savepoint ν σ)
  aborted : Bool

def Connection.start : Connection ν σ := ⟨[], [], false⟩

def Connection.execute (connection : Connection ν σ) (statement : σ) : Bool × Connection ν σ :=
  if connection.aborted then (false, connection)
  else (true, { connection with log := connection.log ++ [statement] })

/-- A statement that the database rejects. -/
def Connection.fail (connection : Connection ν σ) : Connection ν σ :=
  { connection with aborted := true }

def Connection.savepoint (connection : Connection ν σ) (name : ν) : Bool × Connection ν σ :=
  if connection.aborted then (false, connection)
  else
    (true, { connection with savepoints := ⟨name, connection.log⟩ :: connection.savepoints })

def Connection.from [DecidableEq ν] (connection : Connection ν σ) (name : ν) :
    List (Savepoint ν σ) :=
  connection.savepoints.dropWhile fun point => point.name ≠ name

def Connection.release [DecidableEq ν] (connection : Connection ν σ) (name : ν) :
    Bool × Connection ν σ :=
  if connection.aborted then (false, connection)
  else
    match connection.from name with
    | [] => (false, connection.fail)
    | _ :: rest => (true, { connection with savepoints := rest })

def Connection.rollbackTo [DecidableEq ν] (connection : Connection ν σ) (name : ν) :
    Bool × Connection ν σ :=
  match connection.from name with
  | [] => (false, connection.fail)
  | point :: rest => (true, ⟨point.log, point :: rest, false⟩)

/-- `COMMIT`: what has been committed, if the transaction was not aborted. -/
def Connection.commit (connection : Connection ν σ) : Option (List σ) :=
  if connection.aborted then none else some connection.log

/-- The logs grow from one savepoint to the next, and to the log in force. -/
structure Connection.Grows (connection : Connection ν σ) : Prop where
  savepoints : connection.savepoints.Pairwise fun later earlier => earlier.log <+: later.log
  log : ∀ point ∈ connection.savepoints, point.log <+: connection.log

section

variable [DecidableEq ν] {connection : Connection ν σ} {name : ν}

section

variable (h : ∃ point ∈ connection.savepoints, point.name = name)
include h

theorem Connection.from_eq_cons :
    ∃ before point rest, connection.savepoints = before ++ point :: rest ∧ point.name = name ∧
      connection.from name = point :: rest := by
  rw [Connection.from]
  generalize connection.savepoints = points at h ⊢
  induction points with
  | nil =>
    obtain ⟨point, hpoint, -⟩ := h
    exact absurd hpoint List.not_mem_nil
  | cons first rest ih =>
    by_cases hfirst : first.name = name
    · exact ⟨[], first, rest, rfl, hfirst, by rw [List.dropWhile_cons_of_neg (by simp [hfirst])]⟩
    · have hrest : ∃ point ∈ rest, point.name = name := by
        obtain ⟨point, hpoint, hname⟩ := h
        rcases List.mem_cons.mp hpoint with rfl | hpoint
        · exact absurd hname hfirst
        · exact ⟨point, hpoint, hname⟩
      obtain ⟨before, point, after, hsplit, hname, hfrom⟩ := ih hrest
      refine ⟨first :: before, point, after, by rw [hsplit, List.cons_append], hname, ?_⟩
      rw [List.dropWhile_cons_of_pos (by simp [hfirst]), hfrom]

theorem Connection.release_eq (haborted : connection.aborted = false) :
    ∃ before point rest, connection.savepoints = before ++ point :: rest ∧ point.name = name ∧
      connection.release name = (true, { connection with savepoints := rest }) := by
  obtain ⟨before, point, rest, hsplit, hname, hfrom⟩ := Connection.from_eq_cons h
  refine ⟨before, point, rest, hsplit, hname, ?_⟩
  rw [Connection.release, if_neg (by simp [haborted]), hfrom]

theorem Connection.rollbackTo_eq :
    ∃ before point rest, connection.savepoints = before ++ point :: rest ∧ point.name = name ∧
      connection.rollbackTo name = (true, ⟨point.log, point :: rest, false⟩) := by
  obtain ⟨before, point, rest, hsplit, hname, hfrom⟩ := Connection.from_eq_cons h
  refine ⟨before, point, rest, hsplit, hname, ?_⟩
  rw [Connection.rollbackTo, hfrom]

end

end

variable {connection : Connection ν σ}

theorem Connection.start_grows : (Connection.start : Connection ν σ).Grows :=
  ⟨List.Pairwise.nil, fun _ hpoint => absurd hpoint List.not_mem_nil⟩

theorem Connection.Grows.append (h : connection.Grows) (statement : σ) :
    Connection.Grows { connection with log := connection.log ++ [statement] } :=
  ⟨h.savepoints, fun point hpoint => (h.log point hpoint).trans (List.prefix_append _ _)⟩

theorem Connection.Grows.push (h : connection.Grows) (name : ν) :
    Connection.Grows
      { connection with savepoints := ⟨name, connection.log⟩ :: connection.savepoints } := by
  refine ⟨List.pairwise_cons.mpr ⟨h.log, h.savepoints⟩, ?_⟩
  intro point hpoint
  rcases List.mem_cons.mp hpoint with rfl | hpoint
  · exact List.prefix_refl _
  · exact h.log point hpoint

theorem Connection.Grows.drop (h : connection.Grows) {before rest : List (Savepoint ν σ)}
    (hsplit : connection.savepoints = before ++ rest) :
    Connection.Grows { connection with savepoints := rest } := by
  have hpairwise := h.savepoints
  rw [hsplit] at hpairwise
  refine ⟨(List.pairwise_append.mp hpairwise).2.1, ?_⟩
  intro point hpoint
  exact h.log point (hsplit ▸ List.mem_append_right _ hpoint)

theorem Connection.Grows.rollback (h : connection.Grows) {before rest : List (Savepoint ν σ)}
    {point : Savepoint ν σ} (hsplit : connection.savepoints = before ++ point :: rest)
    (aborted : Bool) : Connection.Grows ⟨point.log, point :: rest, aborted⟩ := by
  have hrest := (h.drop hsplit).savepoints
  refine ⟨hrest, ?_⟩
  intro other hother
  rcases List.mem_cons.mp hother with rfl | hother
  · exact List.prefix_refl _
  · exact (List.pairwise_cons.mp hrest).1 other hother

end Stynx.Savepoints
