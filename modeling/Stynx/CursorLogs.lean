import Mathlib.Order.Lattice

/-!
# Logs read with a cursor

A log grows at its end, and the keys of its entries go strictly upwards. A reader holds a cursor,
takes what lies after it, and moves the cursor to each entry that it passes.
-/

namespace Stynx.CursorLogs

universe u v

variable {α : Type u} {κ : Type v} [LinearOrder κ] (key : α → κ)

/-- The keys go strictly upwards. -/
def Ordered (log : List α) : Prop := log.Pairwise fun a b => key a < key b

/-- What lies after a cursor. -/
def since (log : List α) (cursor : κ) : List α := log.filter fun a => decide (cursor < key a)

variable {key} {log new : List α} {cursor : κ}

theorem mem_since {a : α} : a ∈ since key log cursor ↔ a ∈ log ∧ cursor < key a := by
  rw [since, List.mem_filter, decide_eq_true_eq]

theorem since_append (h : ∀ a ∈ new, cursor < key a) :
    since key (log ++ new) cursor = since key log cursor ++ new := by
  rw [since, since, List.filter_append]
  congr 1
  exact List.filter_eq_self.mpr fun a ha => decide_eq_true (h a ha)

theorem since_head (hlog : Ordered key log) {a : α} {rest : List α}
    (h : since key log cursor = a :: rest) : since key log (key a) = rest := by
  have hafter : cursor < key a := (mem_since.mp (h ▸ List.mem_cons_self)).2
  have hsplit : since key log (key a) = (since key log cursor).filter fun b =>
      decide (key a < key b) := by
    rw [since, since, List.filter_filter]
    refine List.filter_congr fun b hb => ?_
    by_cases hab : key a < key b
    · rw [decide_eq_true hab, decide_eq_true (hafter.trans hab), Bool.and_true]
    · rw [decide_eq_false hab, Bool.false_and]
  have hordered : (a :: rest).Pairwise fun a b => key a < key b := by
    rw [← h]
    exact List.Pairwise.filter _ hlog
  rw [hsplit, h, List.filter_cons_of_neg (by simp)]
  exact List.filter_eq_self.mpr fun b hb =>
    decide_eq_true ((List.pairwise_cons.mp hordered).1 b hb)

theorem Ordered.lt_of_append (h : Ordered key (log ++ new)) {a b : α} (ha : a ∈ log)
    (hb : b ∈ new) : key a < key b := (List.pairwise_append.mp h).2.2 a ha b hb

/-- What a reader has passed, since it began, and what is left. -/
def Follows (key : α → κ) (log : List α) (start cursor : κ) (passed : List α) : Prop :=
  passed ++ since key log cursor = since key log start

namespace Follows

variable {start : κ} {passed : List α}

theorem begin (log : List α) (start : κ) : Follows key log start start [] := List.nil_append _

theorem grow (h : Follows key log start cursor passed) (hstart : ∀ a ∈ new, start < key a)
    (hcursor : ∀ a ∈ new, cursor < key a) : Follows key (log ++ new) start cursor passed := by
  rw [Follows, since_append hcursor, since_append hstart, ← List.append_assoc, h]

theorem pass (h : Follows key log start cursor passed) (hlog : Ordered key log) {a : α}
    {rest : List α} (hnext : since key log cursor = a :: rest) :
    Follows key log start (key a) (passed ++ [a]) := by
  rw [Follows, since_head hlog hnext, ← h, hnext, List.append_assoc, List.singleton_append]

theorem isPrefix (h : Follows key log start cursor passed) : passed <+: since key log start :=
  ⟨_, h⟩

end Follows

end Stynx.CursorLogs
