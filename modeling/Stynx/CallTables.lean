import Mathlib.Data.List.Basic

/-!
# Tables of calls

The calls in progress as a list: a call that goes on is replaced at its index, a
new one comes last. Calls may hold keys of shared records; as long as a call
takes only keys that no other call holds, no key is held twice.
-/

namespace Stynx.CallTables

universe u v

variable {α : Type u} {κ : Type v} {calls : List α} {index i : Nat} {call found : α}

theorem getElem?_set_cases (h : (calls.set index call)[i]? = some found) :
    i = index ∧ found = call ∨ i ≠ index ∧ calls[i]? = some found := by
  rw [List.getElem?_set] at h
  by_cases hi : index = i
  · rw [if_pos hi] at h
    split at h
    · exact .inl ⟨hi.symm, (Option.some.inj h).symm⟩
    · cases h
  · rw [if_neg hi] at h
    exact .inr ⟨fun heq => hi heq.symm, h⟩

theorem getElem?_concat_cases (h : (calls ++ [call])[i]? = some found) :
    i = calls.length ∧ found = call ∨ i ≠ calls.length ∧ calls[i]? = some found := by
  rw [List.getElem?_append] at h
  split at h
  case isTrue hlt => exact .inr ⟨Nat.ne_of_lt hlt, h⟩
  case isFalse hge =>
    rw [List.getElem?_singleton] at h
    split at h
    · exact .inl ⟨by omega, (Option.some.inj h).symm⟩
    · cases h

theorem map_set_of_eq {f : α → κ} {next : α} (h : calls[index]? = some call)
    (heq : f next = f call) : (calls.set index next).map f = calls.map f := by
  obtain ⟨hlt, hget⟩ := List.getElem?_eq_some_iff.mp h
  have hset : (calls.map f).set index (f call) = calls.map f := by
    rw [← List.map_set, ← hget, List.set_getElem_self]
  rw [List.map_set, heq, hset]

/-- No key is held twice, by one call or by two. -/
structure Exclusive (held : α → List κ) (calls : List α) : Prop where
  /-- No call holds a key twice. -/
  nodup : ∀ (i : Nat) call, calls[i]? = some call → (held call).Nodup
  apart : ∀ (i j : Nat) one two key, calls[i]? = some one → calls[j]? = some two →
    key ∈ held one → key ∈ held two → i = j

namespace Exclusive

variable {held : α → List κ} {next : α}

theorem nil : Exclusive held [] where
  nodup i call h := by cases h
  apart i j one two key h := by cases h

variable (h : Exclusive held calls)
include h

theorem set (hnodup : (held next).Nodup)
    (hothers : ∀ (i : Nat) other key, i ≠ index → calls[i]? = some other → key ∈ held other → key ∉ held next) :
    Exclusive held (calls.set index next) where
  nodup i found hfound := by
    rcases getElem?_set_cases hfound with ⟨-, rfl⟩ | ⟨-, hold⟩
    · exact hnodup
    · exact h.nodup i found hold
  apart i j one two key hi hj hone htwo := by
    rcases getElem?_set_cases hi with ⟨rfl, rfl⟩ | ⟨hnei, holdi⟩
    · rcases getElem?_set_cases hj with ⟨rfl, rfl⟩ | ⟨hnej, holdj⟩
      · rfl
      · exact absurd hone (hothers j two key hnej holdj htwo)
    · rcases getElem?_set_cases hj with ⟨rfl, rfl⟩ | ⟨hnej, holdj⟩
      · exact absurd htwo (hothers i one key hnei holdi hone)
      · exact h.apart i j one two key holdi holdj hone htwo

theorem shrink (hcall : calls[index]? = some call) (hsub : List.Sublist (held next) (held call)) :
    Exclusive held (calls.set index next) := by
  refine h.set ((h.nodup index call hcall).sublist hsub) ?_
  intro i other key hne hother hkey hnext
  exact hne (h.apart i index other call key hother hcall hkey (hsub.subset hnext))

theorem drop (hnone : held next = []) : Exclusive held (calls.set index next) := by
  refine h.set ?_ ?_
  · rw [hnone]
    exact List.nodup_nil
  · rw [hnone]
    exact fun i other key hne hother hkey => List.not_mem_nil

theorem concat_of_free (hnodup : (held call).Nodup)
    (hfree : ∀ (i : Nat) other key, calls[i]? = some other → key ∈ held other → key ∉ held call) :
    Exclusive held (calls ++ [call]) where
  nodup i found hfound := by
    rcases getElem?_concat_cases hfound with ⟨-, rfl⟩ | ⟨-, hold⟩
    · exact hnodup
    · exact h.nodup i found hold
  apart i j one two key hi hj hone htwo := by
    rcases getElem?_concat_cases hi with ⟨rfl, rfl⟩ | ⟨-, holdi⟩
    · rcases getElem?_concat_cases hj with ⟨rfl, rfl⟩ | ⟨-, holdj⟩
      · rfl
      · exact absurd hone (hfree j two key holdj htwo)
    · rcases getElem?_concat_cases hj with ⟨rfl, rfl⟩ | ⟨-, holdj⟩
      · exact absurd htwo (hfree i one key holdi hone)
      · exact h.apart i j one two key holdi holdj hone htwo

theorem concat (hnone : held call = []) : Exclusive held (calls ++ [call]) := by
  refine h.concat_of_free ?_ ?_
  · rw [hnone]
    exact List.nodup_nil
  · rw [hnone]
    exact fun i other key hother hkey => List.not_mem_nil

end Exclusive

end Stynx.CallTables
