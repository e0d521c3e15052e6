import Mathlib.Data.List.Basic
import Mathlib.Order.Lattice

/-!
# Pages by keys

A list in strictly descending order of keys, cut into pages: a page starts below
the key of the last row of the page before it, and names the key of its own last
row when it has fetched one row too many.
-/

namespace Stynx.KeysetPages

variable {ρ κ : Type} [LinearOrder κ]

/-- A page, with the key after which the next one starts. -/
structure Page (ρ κ : Type) where
  items : List ρ
  /-- The key of the last row, unless there is nothing after it. -/
  next : Option κ

/-- A page cut from the rows that are left. -/
def cut (key : ρ → κ) (limit : Nat) (fetched : List ρ) : Page ρ κ where
  items := fetched.take limit
  next := if limit < fetched.length then (fetched.take limit).getLast?.map key else none

def page (key : ρ → κ) (limit : Nat) (ordered : List ρ) (after : Option κ) : Page ρ κ :=
  cut key limit ((ordered.filter fun row => after.all (key row < ·)).take (limit + 1))

/-- The rows of the pages from some key on; `none` if there are more pages than `fuel`. -/
def follow (key : ρ → κ) (limit : Nat) (ordered : List ρ) : Nat → Option κ → Option (List ρ)
  | 0, _ => none
  | fuel + 1, after =>
    match (page key limit ordered after).next with
    | none => some (page key limit ordered after).items
    | some last => (follow key limit ordered fuel (some last)).map
        ((page key limit ordered after).items ++ ·)

variable {key : ρ → κ} {limit : Nat}

theorem filter_after {done rest : List ρ} (h : (done ++ rest).Pairwise fun a b => key b < key a) :
    (done ++ rest).filter (fun row => (done.getLast?.map key).all (key row < ·)) = rest := by
  rw [List.pairwise_append] at h
  obtain ⟨hdone, -, hcross⟩ := h
  rcases List.eq_nil_or_concat done with rfl | ⟨init, last, rfl⟩
  · simp
  · rw [List.concat_eq_append] at hdone hcross ⊢
    have hlast : ((init ++ [last]).getLast?.map key) = some (key last) := by simp
    rw [hlast, List.filter_append]
    have hnone : (init ++ [last]).filter (fun row => (some (key last)).all (key row < ·)) = [] := by
      rw [List.filter_eq_nil_iff]
      intro row hrow
      have hle : key last ≤ key row := by
        rcases List.mem_append.mp hrow with hrow | hrow
        · exact (List.pairwise_append.mp hdone).2.2 row hrow last (by simp) |>.le
        · rw [List.mem_singleton.mp hrow]
      simpa using hle
    have hall : rest.filter (fun row => (some (key last)).all (key row < ·)) = rest := by
      rw [List.filter_eq_self]
      intro row hrow
      simpa using hcross last (by simp) row hrow
    rw [hnone, hall, List.nil_append]

theorem page_after {done rest : List ρ} (h : (done ++ rest).Pairwise fun a b => key b < key a) :
    page key limit (done ++ rest) (done.getLast?.map key) =
      cut key limit (rest.take (limit + 1)) := by
  rw [page, filter_after h]

omit [LinearOrder κ] in
theorem cut_items (rest : List ρ) :
    (cut key limit (rest.take (limit + 1))).items = rest.take limit := by
  rw [cut, List.take_take, Nat.min_eq_left (Nat.le_succ limit)]

theorem follow_after (hlimit : 0 < limit) {fuel : Nat} {done rest : List ρ}
    (h : (done ++ rest).Pairwise fun a b => key b < key a) (hfuel : rest.length < fuel) :
    follow key limit (done ++ rest) fuel (done.getLast?.map key) = some rest := by
  induction fuel generalizing done rest with
  | zero => omega
  | succ fuel ih =>
    rw [follow, page_after h, cut_items]
    have hnext : (cut key limit (rest.take (limit + 1))).next =
        if limit < rest.length then (rest.take limit).getLast?.map key else none := by
      rw [cut, List.take_take, Nat.min_eq_left (Nat.le_succ limit), List.length_take]
      by_cases hmore : limit < rest.length
      · rw [if_pos (by omega), if_pos hmore]
      · rw [if_neg (by omega), if_neg hmore]
    rw [hnext]
    by_cases hmore : limit < rest.length
    · have hne : rest.take limit ≠ [] := by
        intro hnil
        have hlength := congrArg List.length hnil
        rw [List.length_take, List.length_nil] at hlength
        omega
      have hlast : (done ++ rest.take limit).getLast? = (rest.take limit).getLast? :=
        List.getLast?_append_of_ne_nil _ hne
      have hsplit : done ++ rest = (done ++ rest.take limit) ++ rest.drop limit := by
        rw [List.append_assoc, List.take_append_drop]
      have hfollow : follow key limit ((done ++ rest.take limit) ++ rest.drop limit) fuel
          ((done ++ rest.take limit).getLast?.map key) = some (rest.drop limit) :=
        ih (by rw [← hsplit]; exact h) (by rw [List.length_drop]; omega)
      rw [← hsplit, hlast] at hfollow
      rw [if_pos hmore]
      cases hend : (rest.take limit).getLast? with
      | none => exact absurd (List.getLast?_eq_none_iff.mp hend) hne
      | some last =>
        rw [hend, Option.map_some] at hfollow
        rw [Option.map_some]
        dsimp only
        rw [hfollow, Option.map_some, List.take_append_drop]
    · rw [if_neg hmore]
      dsimp only
      rw [List.take_of_length_le (by omega)]

theorem follow_all (hlimit : 0 < limit) {ordered : List ρ}
    (h : ordered.Pairwise fun a b => key b < key a) :
    follow key limit ordered (ordered.length + 1) none = some ordered := by
  have hfollow : follow key limit ([] ++ ordered) (ordered.length + 1)
      (([] : List ρ).getLast?.map key) = some ordered :=
    follow_after hlimit h (Nat.lt_succ_self _)
  exact hfollow

end Stynx.KeysetPages
