import Mathlib.Data.List.Basic

/-!
# Linked lists of entries

An entry carries the digest of the entry before it. A list is linked if each
entry names the one that precedes it; a window over the list shows each entry
beside what precedes it, as a verifier of the list reads it.
-/

namespace Stynx.LinkedLists

universe u v

variable {ε : Type u} {η : Type v} (previous : ε → Option η) (digest : ε → η)

/-- Each entry names the digest of the one before it; the first one names `start`. -/
def Linked : Option η → List ε → Prop
  | _, [] => True
  | start, entry :: rest => previous entry = start ∧ Linked (some (digest entry)) rest

/-- Each entry beside the digest of the one before it. -/
def lag : Option η → List ε → List (Option η × ε)
  | _, [] => []
  | start, entry :: rest => (start, entry) :: lag (some (digest entry)) rest

/-- The digest that the next entry has to name. -/
def tip : Option η → List ε → Option η
  | start, [] => start
  | _, entry :: rest => tip (some (digest entry)) rest

@[simp] theorem tip_concat (start : Option η) (entries : List ε) (entry : ε) :
    tip digest start (entries ++ [entry]) = some (digest entry) := by
  induction entries generalizing start with
  | nil => rfl
  | cons first rest ih => exact ih _

variable {start : Option η} {entries : List ε}

theorem linked_concat {entry : ε} :
    Linked previous digest start (entries ++ [entry]) ↔
      Linked previous digest start entries ∧ previous entry = tip digest start entries := by
  induction entries generalizing start with
  | nil => simp [Linked, tip]
  | cons first rest ih => rw [List.cons_append, Linked, Linked, tip, ih, and_assoc]

theorem Linked.lag (h : Linked previous digest start entries) :
    ∀ row ∈ lag digest start entries, previous row.2 = row.1 := by
  induction entries generalizing start with
  | nil => exact fun _ hrow => absurd hrow List.not_mem_nil
  | cons first rest ih =>
    intro row hrow
    rcases List.mem_cons.mp hrow with rfl | hrow
    · exact h.1
    · exact ih h.2 row hrow

theorem mem_of_mem_lag {row : Option η × ε} (h : row ∈ lag digest start entries) :
    row.2 ∈ entries := by
  induction entries generalizing start with
  | nil => exact absurd h List.not_mem_nil
  | cons first rest ih =>
    rcases List.mem_cons.mp h with rfl | hrest
    · exact .head _
    · exact .tail _ (ih hrest)

end Stynx.LinkedLists
