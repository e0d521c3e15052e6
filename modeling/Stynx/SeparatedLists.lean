/-!
# Lists joined by a separator

Two lists joined by a separator can be read in more than one way when the
separator occurs in them. The rules say exactly when two readings of one list
exist, and that there is one reading when one of the two sides is free of
separators.
-/

namespace Stynx.SeparatedLists

universe u

variable {α : Type u} {x : α} {as bs cs ds : List α}

theorem append_separator_eq_iff :
    as ++ x :: bs = cs ++ x :: ds ↔
      (as = cs ∧ bs = ds) ∨ (∃ w, cs = as ++ x :: w ∧ bs = w ++ x :: ds) ∨
        ∃ w, as = cs ++ x :: w ∧ ds = w ++ x :: bs := by
  constructor
  · intro h
    rcases List.append_eq_append_iff.mp h with ⟨rest, hcs, hbs⟩ | ⟨rest, has, hds⟩
    · cases rest with
      | nil =>
        rw [List.append_nil] at hcs
        rw [List.nil_append] at hbs
        exact .inl ⟨hcs.symm, (List.cons.inj hbs).2⟩
      | cons y w =>
        obtain ⟨rfl, hw⟩ := List.cons.inj hbs
        exact .inr (.inl ⟨w, hcs, hw⟩)
    · cases rest with
      | nil =>
        rw [List.append_nil] at has
        rw [List.nil_append] at hds
        exact .inl ⟨has, (List.cons.inj hds).2.symm⟩
      | cons y w =>
        obtain ⟨rfl, hw⟩ := List.cons.inj hds
        exact .inr (.inr ⟨w, has, hw⟩)
  · rintro (⟨rfl, rfl⟩ | ⟨w, rfl, rfl⟩ | ⟨w, rfl, rfl⟩)
    · rfl
    · rw [List.append_assoc, List.cons_append]
    · rw [List.append_assoc, List.cons_append]

theorem eq_of_notMem_left (has : x ∉ as) (hcs : x ∉ cs) (h : as ++ x :: bs = cs ++ x :: ds) :
    as = cs ∧ bs = ds := by
  rcases append_separator_eq_iff.mp h with hsame | ⟨w, hw, -⟩ | ⟨w, hw, -⟩
  · exact hsame
  · exact absurd (by rw [hw]; exact List.mem_append_right as List.mem_cons_self) hcs
  · exact absurd (by rw [hw]; exact List.mem_append_right cs List.mem_cons_self) has

theorem eq_of_notMem_right (hbs : x ∉ bs) (hds : x ∉ ds) (h : as ++ x :: bs = cs ++ x :: ds) :
    as = cs ∧ bs = ds := by
  rcases append_separator_eq_iff.mp h with hsame | ⟨w, -, hw⟩ | ⟨w, -, hw⟩
  · exact hsame
  · exact absurd (by rw [hw]; exact List.mem_append_right w List.mem_cons_self) hbs
  · exact absurd (by rw [hw]; exact List.mem_append_right w List.mem_cons_self) hds

end Stynx.SeparatedLists
