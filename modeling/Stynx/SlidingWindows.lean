import Mathlib.Algebra.GroupWithZero.Nat
import Mathlib.Algebra.Order.BigOperators.Group.List

/-!
# Costs in sliding windows

A history of admissions, each with a time and a cost. The cost of a window is
the sum over the admissions whose time lies in it. An admission that keeps
the cost since the start of its own window within a limit keeps every window
within it.
-/

namespace Stynx.SlidingWindows

universe u

variable {α : Type u} (time : α → Int) (cost : α → Nat)

def costAfter (cutoff : Int) (history : List α) : Nat :=
  ((history.filter fun a => cutoff < time a).map cost).sum

/-- The cost of the window of a width that ends at a time: `(end - width, end]`. -/
def costWithin (width : Nat) (last : Int) (history : List α) : Nat :=
  ((history.filter fun a => last - width < time a ∧ time a ≤ last).map cost).sum

variable {time cost} {history : List α} {a : α} {cutoff : Int} {width limit : Nat}

theorem costAfter_concat : costAfter time cost cutoff (history ++ [a]) =
    costAfter time cost cutoff history + if cutoff < time a then cost a else 0 := by
  rw [costAfter, List.filter_append, List.map_append, List.sum_append, List.filter_singleton]
  by_cases h : cutoff < time a
  · simp [costAfter, h]
  · simp [costAfter, h]

theorem costAfter_eq_zero (h : ∀ a ∈ history, time a ≤ cutoff) :
    costAfter time cost cutoff history = 0 := by
  have hnone : history.filter (fun a => cutoff < time a) = [] := by
    refine List.filter_eq_nil_iff.mpr fun a ha => ?_
    have hle := h a ha
    simpa using hle
  rw [costAfter, hnone, List.map_nil, List.sum_nil]

theorem sum_filter_le {p q : α → Bool} (h : ∀ a ∈ history, p a = true → q a = true) :
    ((history.filter p).map cost).sum ≤ ((history.filter q).map cost).sum := by
  induction history with
  | nil => exact Nat.le_refl 0
  | cons a rest ih =>
    have hrest := ih fun b hb => h b (.tail a hb)
    have ha := h a (.head _)
    cases hp : p a with
    | true =>
      rw [List.filter_cons_of_pos hp, List.filter_cons_of_pos (ha hp), List.map_cons,
        List.map_cons, List.sum_cons, List.sum_cons]
      exact Nat.add_le_add_left hrest _
    | false =>
      rw [List.filter_cons_of_neg (ne_true_of_eq_false hp), List.filter_cons]
      split
      · rw [List.map_cons, List.sum_cons]
        exact hrest.trans (Nat.le_add_left _ _)
      · exact hrest

theorem costAfter_anti {later : Int} (h : cutoff ≤ later) :
    costAfter time cost later history ≤ costAfter time cost cutoff history := by
  refine sum_filter_le fun a _ ha => ?_
  exact decide_eq_true (lt_of_le_of_lt h (of_decide_eq_true ha))

theorem costWithin_le_costAfter (last : Int) :
    costWithin time cost width last history ≤ costAfter time cost (last - width) history := by
  refine sum_filter_le fun a _ ha => ?_
  exact decide_eq_true (of_decide_eq_true ha).1

theorem costWithin_concat_le (hold : ∀ last, costWithin time cost width last history ≤ limit)
    (hnew : costAfter time cost (time a - width) history + cost a ≤ limit) (last : Int) :
    costWithin time cost width last (history ++ [a]) ≤ limit := by
  by_cases hlast : last < time a
  · -- the window ends before the new admission
    have hsame : costWithin time cost width last (history ++ [a]) =
        costWithin time cost width last history := by
      rw [costWithin, List.filter_append, List.filter_singleton]
      have hout : ¬ (last - width < time a ∧ time a ≤ last) := fun h => by omega
      simp [costWithin, hout]
    rw [hsame]
    exact hold last
  · have hcutoff : time a - width ≤ last - width := by omega
    calc costWithin time cost width last (history ++ [a])
        ≤ costAfter time cost (last - width) (history ++ [a]) := costWithin_le_costAfter last
      _ ≤ costAfter time cost (time a - width) (history ++ [a]) := costAfter_anti hcutoff
      _ ≤ costAfter time cost (time a - width) history + cost a := by
        rw [costAfter_concat]
        split
        · exact le_rfl
        · exact Nat.le_add_right _ _
      _ ≤ limit := hnew

end Stynx.SlidingWindows
