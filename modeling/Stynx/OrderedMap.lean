import Mathlib.Algebra.GroupWithZero.Nat
import Mathlib.Algebra.Order.BigOperators.Group.List
import Mathlib.Algebra.Order.Group.Nat
import Mathlib.Data.List.Lookmap
import Mathlib.Data.List.Nodup

/-!
# Insertion-ordered maps

The map of the modelled language: keys are unique, iteration follows the order
of first insertion, and writing a key that is present keeps its place.
-/

namespace Stynx

universe u v

/-- A finite map that iterates in the order in which its keys were first written. -/
@[ext]
structure OrderedMap (κ : Type u) (ν : Type v) where
  entries : List (κ × ν)
  /-- No key occurs twice. -/
  nodup : (entries.map Prod.fst).Nodup

namespace OrderedMap

variable {κ : Type u} {ν : Type v}

/-- The map without keys. -/
def empty : OrderedMap κ ν := ⟨[], List.nodup_nil⟩

def values (m : OrderedMap κ ν) : List ν := m.entries.map Prod.snd

section

variable [DecidableEq κ]

/-- The value of the first pair with key `k`. -/
def getEntry (k : κ) : List (κ × ν) → Option ν
  | [] => none
  | (k', v) :: rest => if k' = k then some v else getEntry k rest

/-- Overwrite in place, or append a new pair. -/
def setEntry (k : κ) (v : ν) : List (κ × ν) → List (κ × ν)
  | [] => [(k, v)]
  | (k', v') :: rest => if k' = k then (k, v) :: rest else (k', v') :: setEntry k v rest

theorem getEntry_cons (k k' : κ) (v : ν) (rest : List (κ × ν)) :
    getEntry k ((k', v) :: rest) = if k' = k then some v else getEntry k rest := rfl

theorem setEntry_cons (k k' : κ) (v v' : ν) (rest : List (κ × ν)) :
    setEntry k v ((k', v') :: rest) =
      if k' = k then (k, v) :: rest else (k', v') :: setEntry k v rest := rfl

theorem mem_keys_setEntry (k : κ) (v : ν) (l : List (κ × ν)) (x : κ) :
    x ∈ (setEntry k v l).map Prod.fst ↔ x = k ∨ x ∈ l.map Prod.fst := by
  induction l with
  | nil => exact List.mem_cons
  | cons p rest ih =>
    obtain ⟨k', v'⟩ := p
    by_cases hk : k' = k
    · subst hk
      simp [setEntry_cons]
    · rw [setEntry_cons, if_neg hk, List.map_cons, List.mem_cons, ih, List.map_cons, List.mem_cons]
      tauto

variable {k : κ} {l : List (κ × ν)}

theorem keys_setEntry_of_mem (v : ν) (h : k ∈ l.map Prod.fst) :
    (setEntry k v l).map Prod.fst = l.map Prod.fst := by
  induction l with
  | nil => cases h
  | cons p rest ih =>
    obtain ⟨k', v'⟩ := p
    by_cases hk : k' = k
    · subst hk
      rw [setEntry_cons, if_pos rfl]
      rfl
    · rw [setEntry_cons, if_neg hk, List.map_cons, List.map_cons, ih]
      rw [List.map_cons, List.mem_cons] at h
      exact h.resolve_left (Ne.symm hk)

theorem nodup_setEntry (k : κ) (v : ν) (hl : (l.map Prod.fst).Nodup) :
    ((setEntry k v l).map Prod.fst).Nodup := by
  induction l with
  | nil => exact List.nodup_singleton k
  | cons p rest ih =>
    obtain ⟨k', v'⟩ := p
    rw [List.map_cons, List.nodup_cons] at hl
    by_cases hk : k' = k
    · subst hk
      simpa [setEntry_cons] using hl
    · rw [setEntry_cons, if_neg hk, List.map_cons, List.nodup_cons, mem_keys_setEntry]
      refine ⟨?_, ih hl.2⟩
      rintro (h | h)
      · exact hk h
      · exact hl.1 h

theorem getEntry_setEntry (k k' : κ) (v : ν) (l : List (κ × ν)) :
    getEntry k' (setEntry k v l) = if k = k' then some v else getEntry k' l := by
  induction l with
  | nil => rfl
  | cons p rest ih =>
    obtain ⟨j, w⟩ := p
    by_cases hj : j = k
    · subst hj
      by_cases hk : j = k' <;> simp [setEntry_cons, getEntry_cons, hk]
    · rw [setEntry_cons, if_neg hj, getEntry_cons, getEntry_cons, ih]
      by_cases hk : k = k'
      · subst hk
        simp [hj]
      · simp [hk]

theorem mem_of_getEntry {v : ν} (h : getEntry k l = some v) : (k, v) ∈ l := by
  induction l with
  | nil => cases h
  | cons p rest ih =>
    obtain ⟨j, w⟩ := p
    rw [getEntry_cons] at h
    split_ifs at h with hj
    · cases h
      rw [hj]
      exact .head _
    · exact .tail _ (ih h)

theorem getEntry_of_mem {v : ν} (hl : (l.map Prod.fst).Nodup) (h : (k, v) ∈ l) :
    getEntry k l = some v := by
  induction l with
  | nil => exact absurd h List.not_mem_nil
  | cons p rest ih =>
    obtain ⟨j, w⟩ := p
    rw [List.map_cons, List.nodup_cons] at hl
    rw [getEntry_cons]
    rcases List.mem_cons.mp h with he | hr
    · cases he
      simp
    · have hne : j ≠ k := by
        rintro rfl
        exact hl.1 (List.mem_map.mpr ⟨(j, v), hr, rfl⟩)
      rw [if_neg hne]
      exact ih hl.2 hr

theorem setEntry_of_not_mem (v : ν) (h : k ∉ l.map Prod.fst) : setEntry k v l = l ++ [(k, v)] := by
  induction l with
  | nil => rfl
  | cons p rest ih =>
    obtain ⟨k', v'⟩ := p
    rw [List.map_cons, List.mem_cons, not_or] at h
    rw [setEntry_cons, if_neg (Ne.symm h.1), ih h.2, List.cons_append]

theorem countP_setEntry (p : κ × ν → Bool) (k : κ) (v : ν) (l : List (κ × ν)) :
    (setEntry k v l).countP p + ((getEntry k l).toList.countP fun w => p (k, w)) =
      l.countP p + [(k, v)].countP p := by
  induction l with
  | nil => rw [Nat.add_comm]; rfl
  | cons q rest ih =>
    obtain ⟨j, w⟩ := q
    by_cases hj : j = k
    · subst hj
      simp only [setEntry_cons, getEntry_cons, if_true, List.countP_cons, Option.toList_some, List.countP_nil]
      omega
    · simp only [setEntry_cons, getEntry_cons, if_neg hj, List.countP_cons] at ih ⊢
      omega

end

variable [DecidableEq κ]

/-- `get`: the value stored under a key. -/
def get? (m : OrderedMap κ ν) (k : κ) : Option ν := getEntry k m.entries

/-- `has`: whether a key is stored. -/
def has (m : OrderedMap κ ν) (k : κ) : Bool := (m.get? k).isSome

/-- `set`: overwrite in place, or append. -/
def set (m : OrderedMap κ ν) (k : κ) (v : ν) : OrderedMap κ ν :=
  ⟨setEntry k v m.entries, nodup_setEntry k v m.nodup⟩

/-- `delete`: remove a key. -/
def delete (m : OrderedMap κ ν) (k : κ) : OrderedMap κ ν :=
  ⟨m.entries.filter fun p => p.1 ≠ k, m.nodup.sublist (List.filter_sublist.map Prod.fst)⟩

/-- The pairs with a property. -/
def filter (m : OrderedMap κ ν) (p : κ × ν → Bool) : OrderedMap κ ν :=
  ⟨m.entries.filter p, m.nodup.sublist (List.filter_sublist.map Prod.fst)⟩

/-- A loop over the map that overwrites the value of each visited key. -/
def mapValues (m : OrderedMap κ ν) (f : κ → ν → ν) : OrderedMap κ ν :=
  ⟨m.entries.map fun p => (p.1, f p.1 p.2), by
    have h : (m.entries.map fun p => (p.1, f p.1 p.2)).map Prod.fst = m.entries.map Prod.fst := by
      rw [List.map_map]
      rfl
    rw [h]
    exact m.nodup⟩

variable {m : OrderedMap κ ν} {k : κ} {v : ν}

theorem mem_entries_iff : (k, v) ∈ m.entries ↔ m.get? k = some v :=
  ⟨getEntry_of_mem m.nodup, mem_of_getEntry⟩

theorem mem_values_iff : v ∈ m.values ↔ ∃ k, m.get? k = some v := by
  simp only [values, List.mem_map, Prod.exists, mem_entries_iff, exists_eq_right]

@[simp] theorem get?_empty (k : κ) : (empty : OrderedMap κ ν).get? k = none := rfl

theorem get?_set (m : OrderedMap κ ν) (k k' : κ) (v : ν) :
    (m.set k v).get? k' = if k = k' then some v else m.get? k' :=
  getEntry_setEntry k k' v m.entries

@[simp] theorem get?_set_self (m : OrderedMap κ ν) (k : κ) (v : ν) :
    (m.set k v).get? k = some v := by
  rw [get?_set, if_pos rfl]

theorem keys_set_of_mem (h : k ∈ m.entries.map Prod.fst) (v : ν) :
    (m.set k v).entries.map Prod.fst = m.entries.map Prod.fst :=
  keys_setEntry_of_mem v h

theorem get?_set_of_ne (m : OrderedMap κ ν) {k' : κ} (v : ν) (h : k ≠ k') :
    (m.set k v).get? k' = m.get? k' := by
  rw [get?_set, if_neg h]

theorem get?_set_eq_some {k' : κ} {w : ν} :
    (m.set k v).get? k' = some w ↔ k = k' ∧ v = w ∨ k ≠ k' ∧ m.get? k' = some w := by
  rw [get?_set]
  split_ifs with h <;> simp [h]

theorem countP_set (p : κ × ν → Bool) (m : OrderedMap κ ν) (k : κ) (v : ν) :
    (m.set k v).entries.countP p + ((m.get? k).toList.countP fun w => p (k, w)) =
      m.entries.countP p + [(k, v)].countP p :=
  countP_setEntry p k v m.entries

theorem get?_delete (m : OrderedMap κ ν) (k k' : κ) :
    (m.delete k).get? k' = if k = k' then none else m.get? k' := by
  simp only [get?, delete]
  induction m.entries with
  | nil => exact (ite_self none).symm
  | cons p rest ih =>
    obtain ⟨j, w⟩ := p
    by_cases hj : j = k
    · subst hj
      rw [List.filter_cons_of_neg (by simp), ih, getEntry_cons]
      split_ifs <;> rfl
    · rw [List.filter_cons_of_pos (by simpa using hj), getEntry_cons, getEntry_cons, ih]
      split_ifs with hjk hkk <;> first | rfl | exact absurd (hjk.trans hkk.symm) hj

theorem get?_filter_eq_some {p : κ × ν → Bool} :
    (m.filter p).get? k = some v ↔ m.get? k = some v ∧ p (k, v) = true := by
  rw [← mem_entries_iff, ← mem_entries_iff]
  exact List.mem_filter

theorem get?_foldl_delete {keys : List κ} (m : OrderedMap κ ν) (h : k ∉ keys) :
    (keys.foldl delete m).get? k = m.get? k := by
  induction keys generalizing m with
  | nil => rfl
  | cons first rest ih =>
    rw [List.mem_cons, not_or] at h
    rw [List.foldl_cons, ih (m.delete first) h.2, get?_delete, if_neg (Ne.symm h.1)]

theorem sum_set_le (m : OrderedMap κ ν) (k : κ) (v : ν) {f g : κ × ν → Nat}
    (h : ∀ p ∈ m.entries, p.1 ≠ k → g p ≤ f p) :
    ((m.set k v).entries.map g).sum ≤ (m.entries.map f).sum + g (k, v) := by
  have hset : (m.set k v).entries = setEntry k v m.entries := rfl
  rw [hset]
  have hkeys := m.nodup
  generalize m.entries = l at h hkeys ⊢
  induction l with
  | nil => exact le_rfl |>.trans (Nat.le_of_eq (Nat.add_comm ..))
  | cons p rest ih =>
    obtain ⟨k', v'⟩ := p
    obtain ⟨hfresh, hrest⟩ := List.nodup_cons.mp hkeys
    have hle : ∀ p ∈ rest, p.1 ≠ k → g p ≤ f p := fun p hp =>
      h p (.tail _ hp)
    by_cases hk : k' = k
    · subst hk
      -- the other pairs have other keys
      have hother : (rest.map g).sum ≤ (rest.map f).sum := by
        refine List.sum_le_sum fun p hp => hle p hp ?_
        intro heq
        exact hfresh (List.mem_map.mpr ⟨p, hp, heq⟩)
      simp only [setEntry_cons, if_true, List.map_cons, List.sum_cons]
      omega
    · have hfirst := h (k', v') (.head _) hk
      have htail := ih hle hrest
      simp only [setEntry_cons, if_neg hk, List.map_cons, List.sum_cons]
      omega

@[simp] theorem get?_mapValues (m : OrderedMap κ ν) (f : κ → ν → ν) (k : κ) :
    (m.mapValues f).get? k = (m.get? k).map (f k) := by
  simp only [get?, mapValues]
  induction m.entries with
  | nil => rfl
  | cons p rest ih =>
    obtain ⟨j, w⟩ := p
    simp only [List.map_cons, getEntry_cons]
    by_cases h : j = k
    · subst h
      simp
    · simpa [h] using ih

theorem get?_eq_none_of_not_has (h : m.has k = false) : m.get? k = none := by
  rw [has] at h
  exact Option.isSome_eq_false_iff.mp h |> Option.isNone_iff_eq_none.mp

theorem mapValues_eq_self {f : κ → ν → ν} (h : ∀ k v, m.get? k = some v → f k v = v) :
    m.mapValues f = m := by
  have hentries : m.entries.map (fun p => (p.1, f p.1 p.2)) = m.entries := by
    conv_rhs => rw [← List.map_id m.entries]
    refine List.map_congr_left ?_
    rintro ⟨k, v⟩ hp
    rw [h k v (mem_entries_iff.mp hp)]
    rfl
  cases m
  simpa [mapValues] using hentries

theorem entries_foldl_set (l : List (κ × ν)) (m : OrderedMap κ ν)
    (h : ((m.entries ++ l).map Prod.fst).Nodup) :
    (l.foldl (fun acc p => acc.set p.1 p.2) m).entries = m.entries ++ l := by
  induction l generalizing m with
  | nil => simp
  | cons p rest ih =>
    have hnew : p.1 ∉ m.entries.map Prod.fst := by
      rw [List.map_append, List.nodup_append] at h
      intro hmem
      exact h.2.2 p.1 hmem p.1 (by simp) rfl
    have hset : (m.set p.1 p.2).entries = m.entries ++ [p] := setEntry_of_not_mem p.2 hnew
    rw [List.foldl_cons, ih (m.set p.1 p.2) (by simpa [hset] using h), hset]
    simp

theorem foldl_set_entries (m : OrderedMap κ ν) :
    m.entries.foldl (fun acc p => acc.set p.1 p.2) empty = m := by
  refine OrderedMap.ext ?_
  rw [entries_foldl_set m.entries empty (by simpa [empty] using m.nodup)]
  rfl

end OrderedMap

end Stynx
