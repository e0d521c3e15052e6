import Mathlib.Data.List.Perm.Subperm

/-!
# Walks

From a node one goes to its successors, in order and as often as they are listed.
The walk from a node visits a node once for each path to it, down to a depth; it
is complete if no path is longer. A complete walk visits what can be reached, and
visits each node once exactly when there is one path to each.
-/

namespace Stynx.Walks

open Relation (ReflTransGen)

universe u

variable {α : Type u} (next : α → List α)

/-- The nodes on the paths from a node, once for each path. -/
def walk : Nat → α → List α
  | 0, _ => []
  | depth + 1, a => a :: (next a).flatMap (walk depth)

/-- No path is longer. -/
def Complete : Nat → α → Prop
  | 0, _ => False
  | depth + 1, a => ∀ b ∈ next a, Complete depth b

variable {next}

variable {depth : Nat} {a : α} {rows : List α} {f : α → List α}

theorem Complete.mem_walk_iff {b : α} (h : Complete next depth a) :
    b ∈ walk next depth a ↔ ReflTransGen (fun a b => b ∈ next a) a b := by
  induction depth generalizing a with
  | zero => exact absurd h not_false
  | succ depth ih =>
    rw [walk, List.mem_cons, List.mem_flatMap, ReflTransGen.cases_head_iff]
    constructor
    · intro hmem
      rcases hmem with rfl | ⟨c, hc, hb⟩
      · exact .inl rfl
      · exact .inr ⟨c, hc, (ih (h c hc)).mp hb⟩
    · intro hreach
      rcases hreach with rfl | ⟨c, hc, hb⟩
      · exact .inl rfl
      · exact .inr ⟨c, hc, (ih (h c hc)).mpr hb⟩

theorem Complete.self_mem (h : Complete next depth a) :
    a ∈ walk next depth a := h.mem_walk_iff.mpr ReflTransGen.refl

theorem Complete.length_pos (h : Complete next depth a) :
    0 < (walk next depth a).length := List.length_pos_of_mem h.self_mem

theorem length_le_flatMap (h : ∀ a ∈ rows, 0 < (f a).length) :
    rows.length ≤ (rows.flatMap f).length := by
  induction rows with
  | nil => exact Nat.zero_le _
  | cons a rest ih =>
    have hfirst := h a (.head _)
    have hrest := ih fun b hb => h b (.tail _ hb)
    rw [List.flatMap_cons, List.length_append, List.length_cons]
    omega

theorem length_le_of_mem_flatMap (h : a ∈ rows) : (f a).length ≤ (rows.flatMap f).length := by
  obtain ⟨before, after, rfl⟩ := List.append_of_mem h
  rw [List.flatMap_append, List.flatMap_cons, List.length_append, List.length_append]
  omega

theorem nodup_of_same {first second : List α} (hnodup : first.Nodup)
    (hsame : ∀ a, a ∈ first ↔ a ∈ second) (hlength : second.length = first.length) :
    second.Nodup := by
  have hsubperm := List.Nodup.subperm hnodup fun a ha => (hsame a).mp ha
  exact (hsubperm.perm_of_length_le (Nat.le_of_eq hlength)).nodup_iff.mp hnodup

end Stynx.Walks
