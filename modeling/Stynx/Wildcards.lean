import Mathlib.Data.List.Basic

/-!
# Patterns with wildcards

A wildcard stands for any text, also the empty one, and every other symbol for
itself. A text that fits a pattern may be read as a pattern again: what fits
it fits the first pattern too.
-/

namespace Stynx.Wildcards

universe u

variable {α : Type u} {star : α}

def Fits (star : α) : List α → List α → Prop
  | [], text => text = []
  | c :: pattern, text =>
    (c = star ∧ ∃ taken rest, text = taken ++ rest ∧ Fits star pattern rest) ∨
      (c ≠ star ∧ ∃ rest, text = c :: rest ∧ Fits star pattern rest)

variable {pattern first second key text rest : List α} {c : α}

@[simp] theorem fits_nil : Fits star [] text ↔ text = [] := Iff.rfl

theorem fits_cons_iff :
    Fits star (c :: pattern) text ↔
      (c = star ∧ ∃ taken rest, text = taken ++ rest ∧ Fits star pattern rest) ∨
        (c ≠ star ∧ ∃ rest, text = c :: rest ∧ Fits star pattern rest) := Iff.rfl

theorem fits_star_cons :
    Fits star (star :: pattern) text ↔
      ∃ taken rest, text = taken ++ rest ∧ Fits star pattern rest := by
  rw [fits_cons_iff, or_iff_left fun h => h.1 rfl, and_iff_right rfl]

theorem fits_cons (hc : c ≠ star) :
    Fits star (c :: pattern) text ↔ ∃ rest, text = c :: rest ∧ Fits star pattern rest := by
  rw [fits_cons_iff, or_iff_right fun h => hc h.1, and_iff_right hc]

theorem fits_iff_eq (hstar : star ∉ pattern) : Fits star pattern text ↔ text = pattern := by
  induction pattern generalizing text with
  | nil => exact fits_nil
  | cons c pattern ih =>
    rw [List.mem_cons, not_or] at hstar
    obtain ⟨hc, hrest⟩ := hstar
    rw [fits_cons fun h => hc h.symm]
    constructor
    · rintro ⟨rest, rfl, hfits⟩
      rw [(ih hrest).mp hfits]
    · rintro rfl
      exact ⟨pattern, rfl, (ih hrest).mpr rfl⟩

theorem exists_of_fits_append (h : Fits star (first ++ second) text) :
    ∃ start rest, text = start ++ rest ∧ Fits star first start ∧ Fits star second rest := by
  induction first generalizing text with
  | nil => exact ⟨[], text, rfl, fits_nil.mpr rfl, h⟩
  | cons c first ih =>
    rw [List.cons_append] at h
    by_cases hc : c = star
    · subst hc
      obtain ⟨taken, rest, rfl, hrest⟩ := fits_star_cons.mp h
      obtain ⟨start, rest, rfl, hstart, hsecond⟩ := ih hrest
      refine ⟨taken ++ start, rest, (List.append_assoc ..).symm, ?_, hsecond⟩
      exact fits_star_cons.mpr ⟨taken, start, rfl, hstart⟩
    · obtain ⟨rest, rfl, hrest⟩ := (fits_cons hc).mp h
      obtain ⟨start, rest, rfl, hstart, hsecond⟩ := ih hrest
      exact ⟨c :: start, rest, rfl, (fits_cons hc).mpr ⟨start, rfl, hstart⟩, hsecond⟩

theorem Fits.trans (hkey : Fits star pattern key) (htext : Fits star key text) :
    Fits star pattern text := by
  induction pattern generalizing key text with
  | nil =>
    rw [fits_nil.mp hkey] at htext
    exact htext
  | cons c pattern ih =>
    by_cases hc : c = star
    · subst hc
      obtain ⟨taken, rest, rfl, hrest⟩ := fits_star_cons.mp hkey
      obtain ⟨start, later, rfl, -, hlater⟩ := exists_of_fits_append htext
      exact fits_star_cons.mpr ⟨start, later, rfl, ih hrest hlater⟩
    · obtain ⟨rest, rfl, hrest⟩ := (fits_cons hc).mp hkey
      obtain ⟨later, rfl, hlater⟩ := (fits_cons hc).mp htext
      exact (fits_cons hc).mpr ⟨later, rfl, ih hrest hlater⟩

end Stynx.Wildcards
