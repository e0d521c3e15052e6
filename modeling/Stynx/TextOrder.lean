import Mathlib.Data.List.Dedup
import Mathlib.Data.List.Lex
import Mathlib.Data.List.Sort
import Stynx.JsonTokens

/-!
# The order of texts

`Array.prototype.sort` without a comparison puts texts in the order of their
UTF-16 code units. Different texts have different code units, so a set of texts
has one sorted list.
-/

namespace Stynx.TextOrder

open JsonTokens

variable {a b c : List Char} {texts : List (List Char)}

def units (text : List Char) : List Nat := (text.map CodePoint.scalar).flatMap CodePoint.units

/-- The order of `Array.prototype.sort`. -/
def TextLe (a b : List Char) : Prop := keyOrder (a.map .scalar) (b.map .scalar)

instance : DecidableRel TextLe := fun a b =>
  inferInstanceAs (Decidable (keyOrder (a.map .scalar) (b.map .scalar)))

theorem textLe_iff : TextLe a b ↔ units a ≤ units b := by
  change ¬ units b < units a ↔ _
  exact not_lt

theorem units_cons (c : Char) (text : List Char) :
    units (c :: text) = (CodePoint.scalar c).units ++ units text := rfl

theorem toNat_range (c : Char) : c.toNat < 0xD800 ∨ 0xE000 ≤ c.toNat ∧ c.toNat < 0x110000 := by
  rcases c.valid with h | ⟨hlow, hhigh⟩
  · exact .inl h
  · exact .inr ⟨by have := hlow; simp only [Char.toNat]; omega, hhigh⟩

theorem units_append_inj {c d : Char} {rest rest' : List Nat}
    (h : (CodePoint.scalar c).units ++ rest = (CodePoint.scalar d).units ++ rest') :
    c = d ∧ rest = rest' := by
  have hc := toNat_range c
  have hd := toNat_range d
  have hsame : c.toNat = d.toNat ∧ rest = rest' := by
    simp only [CodePoint.units] at h
    split_ifs at h with hsmall hsmall'
    all_goals
      simp only [List.cons_append, List.nil_append, List.cons.injEq] at h
      refine ⟨by omega, ?_⟩
    · exact h.2
    · omega
    · omega
    · exact h.2.2
  exact ⟨Char.toNat_inj.mp hsame.1, hsame.2⟩

theorem units_injective : Function.Injective units := by
  intro a b h
  induction a generalizing b with
  | nil =>
    cases b with
    | nil => rfl
    | cons d b =>
      rw [units_cons, CodePoint.units] at h
      split_ifs at h
      all_goals cases h
  | cons c a ih =>
    cases b with
    | nil =>
      rw [units_cons, CodePoint.units] at h
      split_ifs at h
      all_goals cases h
    | cons d b =>
      rw [units_cons, units_cons] at h
      obtain ⟨rfl, hrest⟩ := units_append_inj h
      rw [ih hrest]

instance : Std.Total TextLe := ⟨fun a b => by
  rw [textLe_iff, textLe_iff]
  exact le_total _ _⟩

instance : IsTrans (List Char) TextLe := ⟨fun a b c hab hbc => by
  rw [textLe_iff] at hab hbc ⊢
  exact le_trans hab hbc⟩

instance : Std.Antisymm TextLe := ⟨fun a b hab hba => by
  rw [textLe_iff] at hab hba
  exact units_injective (le_antisymm hab hba)⟩

theorem keyOrder_iff {a b : JsString} :
    keyOrder a b ↔ a.flatMap CodePoint.units ≤ b.flatMap CodePoint.units := by
  change ¬ b.flatMap CodePoint.units < a.flatMap CodePoint.units ↔ _
  exact not_lt

instance : Std.Total keyOrder := ⟨fun a b => by
  rw [keyOrder_iff, keyOrder_iff]
  exact le_total _ _⟩

instance : IsTrans JsString keyOrder := ⟨fun a b c hab hbc => by
  rw [keyOrder_iff] at hab hbc ⊢
  exact le_trans hab hbc⟩

def sortedSet (texts : List (List Char)) : List (List Char) :=
  texts.dedup.insertionSort TextLe

@[simp] theorem mem_sortedSet {text : List Char} : text ∈ sortedSet texts ↔ text ∈ texts := by
  rw [sortedSet, List.mem_insertionSort, List.mem_dedup]

theorem sortedSet_congr {texts' : List (List Char)} (h : ∀ text, text ∈ texts ↔ text ∈ texts') :
    sortedSet texts = sortedSet texts' := by
  have hperm : (sortedSet texts).Perm (sortedSet texts') := by
    refine (List.perm_insertionSort _ _).trans (List.Perm.trans ?_ (List.perm_insertionSort _ _).symm)
    rw [List.perm_ext_iff_of_nodup (List.nodup_dedup _) (List.nodup_dedup _)]
    intro text
    rw [List.mem_dedup, List.mem_dedup, h]
  exact hperm.eq_of_pairwise' (List.pairwise_insertionSort TextLe _)
    (List.pairwise_insertionSort TextLe _)

end Stynx.TextOrder
