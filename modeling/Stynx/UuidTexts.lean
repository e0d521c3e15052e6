import Mathlib.Algebra.Group.Nat.Defs
import Mathlib.Data.List.Basic

/-!
# Texts of UUIDs

A UUID is a number of 128 bits. Its text has 32 hexadecimal digits in five groups with a
hyphen between two of them; the digits are written in lower case and read in either.
-/

namespace Stynx.UuidTexts

/-- The value of a hexadecimal digit. -/
def digit? (c : Char) : Option Nat := (List.range 16).find? fun n => Nat.digitChar n == c.toLower

/-- Hexadecimal digits of a fixed width. -/
def digits : Nat → Nat → List Char
  | 0, _ => []
  | width + 1, n => digits width (n / 16) ++ [Nat.digitChar (n % 16)]

/-- The number that hexadecimal digits stand for. -/
def read (text : List Char) : Option Nat :=
  text.foldlM (fun n c => (digit? c).map fun d => 16 * n + d) 0

/-- Digits in groups of 8, 4, 4, 4 and the rest. -/
def groups (text : List Char) : List Char :=
  text.take 8 ++ '-' :: (text.drop 8).take 4 ++ '-' :: (text.drop 12).take 4 ++
    '-' :: (text.drop 16).take 4 ++ '-' :: text.drop 20

def text (n : Nat) : String := String.ofList (groups (digits 32 n))

/-- The UUID that a text stands for. -/
def parse (value : String) : Option Nat :=
  let found := value.toList.filter (· ≠ '-')
  if found.length = 32 ∧ groups found = value.toList then read found else none

theorem digit?_digitChar : ∀ n : Fin 16, digit? (Nat.digitChar n) = some n := by decide

theorem digit?_digitChar_mod (n : Nat) : digit? (Nat.digitChar (n % 16)) = some (n % 16) :=
  digit?_digitChar ⟨n % 16, Nat.mod_lt n (by decide)⟩

theorem length_digits (width n : Nat) : (digits width n).length = width := by
  induction width generalizing n with
  | zero => rfl
  | succ width ih => rw [digits, List.length_append, ih, List.length_singleton]

theorem read_digits (width : Nat) {n : Nat} (h : n < 16 ^ width) :
    read (digits width n) = some n := by
  induction width generalizing n with
  | zero =>
    rw [Nat.pow_zero] at h
    have hn : n = 0 := by omega
    rw [hn]
    rfl
  | succ width ih =>
    rw [Nat.pow_succ] at h
    have hread := ih (n := n / 16) (by omega)
    rw [read] at hread
    rw [digits, read, List.foldlM_append, hread]
    simp only [Option.bind_eq_bind, Option.bind_some, List.foldlM_cons, List.foldlM_nil,
      digit?_digitChar_mod, Option.map_some, Option.pure_def, Option.some.injEq]
    omega

theorem digitChar_mod (n : Nat) : ∃ k : Fin 16, Nat.digitChar (n % 16) = Nat.digitChar k :=
  ⟨⟨n % 16, Nat.mod_lt n (by decide)⟩, rfl⟩

theorem mem_digits {width n : Nat} {c : Char} (h : c ∈ digits width n) :
    ∃ k : Fin 16, c = Nat.digitChar k := by
  induction width generalizing n with
  | zero => cases h
  | succ width ih =>
    rcases List.mem_append.mp h with hinit | hlast
    · exact ih hinit
    · rw [List.mem_singleton.mp hlast]
      exact digitChar_mod n

theorem digitChar_ne_hyphen : ∀ k : Fin 16, Nat.digitChar k ≠ '-' := by decide

theorem filter_groups {found : List Char} (h : ∀ c ∈ found, c ≠ '-') :
    (groups found).filter (· ≠ '-') = found := by
  -- a part of the digits has no hyphen
  have hkeep : ∀ part : List Char, part.Sublist found → part.filter (· ≠ '-') = part :=
    fun part hpart => List.filter_eq_self.mpr fun c hc => decide_eq_true (h c (hpart.subset hc))
  have hdrop : ∀ k, (found.drop k).Sublist found := fun k => List.drop_sublist k found
  have htake : ∀ k, ((found.drop k).take 4).Sublist found :=
    fun k => (List.take_sublist 4 _).trans (hdrop k)
  simp only [groups, List.filter_append, ne_eq, not_true_eq_false, decide_false,
    List.cons_append, List.append_assoc, List.filter_cons_of_neg, Bool.false_eq_true,
    not_false_eq_true]
  simp only [ne_eq] at hkeep
  rw [hkeep _ (List.take_sublist 8 found), hkeep _ (htake 8), hkeep _ (htake 12),
    hkeep _ (htake 16), hkeep _ (hdrop 20)]
  have hjoin : ∀ k, (found.drop k).take 4 ++ found.drop (k + 4) = found.drop k := by
    intro k
    rw [← List.drop_drop]
    exact List.take_append_drop 4 (found.drop k)
  rw [hjoin 16, hjoin 12, hjoin 8, List.take_append_drop]

theorem parse_text {n : Nat} (h : n < 2 ^ 128) : parse (text n) = some n := by
  have hdigits : ∀ c ∈ digits 32 n, c ≠ '-' := by
    intro c hc
    obtain ⟨k, rfl⟩ := mem_digits hc
    exact digitChar_ne_hyphen k
  have hfound := filter_groups hdigits
  simp only [parse, text, String.toList_ofList, hfound, length_digits, true_and, if_true]
  exact read_digits 32 (by omega)

theorem mem_text {n : Nat} {c : Char} (h : c ∈ (text n).toList) :
    c = '-' ∨ ∃ k : Fin 16, c = Nat.digitChar k := by
  rw [text, String.toList_ofList] at h
  by_cases hc : c = '-'
  · exact .inl hc
  · refine .inr (mem_digits (?_ : c ∈ digits 32 n))
    have hmem : c ∈ (groups (digits 32 n)).filter (· ≠ '-') :=
      List.mem_filter.mpr ⟨h, decide_eq_true hc⟩
    rwa [filter_groups] at hmem
    intro d hd
    obtain ⟨k, rfl⟩ := mem_digits hd
    exact digitChar_ne_hyphen k

theorem length_text (n : Nat) : (text n).toList.length = 36 := by
  simp only [text, String.toList_ofList, groups, List.length_append, List.length_cons,
    List.length_take, List.length_drop, length_digits]
  rfl

theorem length_of_parse {value : String} (h : (parse value).isSome = true) :
    value.toList.length = 36 := by
  simp only [parse] at h
  split at h
  case isTrue hshape =>
    rw [← hshape.2]
    simp only [groups, List.length_append, List.length_cons, List.length_take, List.length_drop,
      hshape.1]
    rfl
  case isFalse => cases h

end Stynx.UuidTexts
