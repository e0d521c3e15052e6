import Mathlib.Data.Set.Finite.Basic

/-!
# Descent in a finite relation

Following a relation from a point stops after finitely many steps when no point
that it reaches lies on a cycle, provided that it reaches finitely many.
A computation that descends along the relation, with a bound on the number of
steps, then has a bound that suffices.
-/

namespace Stynx.FiniteDescent

open Relation

universe u

variable {α : Type u} {r : α → α → Prop}

theorem not_transGen_self_of_acc {a : α} (h : Acc (flip r) a) : ¬ TransGen r a a := by
  induction h with
  | intro a _ ih =>
    intro hcycle
    obtain ⟨b, hstep, hback⟩ := TransGen.head'_iff.mp hcycle
    exact ih b hstep (TransGen.tail' hback hstep)

theorem acc_of_reflTransGen {a b : α} (h : Acc (flip r) a) (hreach : ReflTransGen r a b) :
    Acc (flip r) b := by
  induction hreach with
  | refl => exact h
  | tail _ hstep ih => exact ih.inv hstep

theorem acc_iff_forall_not_transGen {a : α} (hfinite : {b | ReflTransGen r a b}.Finite) :
    Acc (flip r) a ↔ ∀ b, ReflTransGen r a b → ¬ TransGen r b b := by
  constructor
  · intro h b hreach
    exact not_transGen_self_of_acc (acc_of_reflTransGen h hreach)
  · intro hacyclic
    have : Finite {b // ReflTransGen r a b} := hfinite
    let below : {b // ReflTransGen r a b} → {b // ReflTransGen r a b} → Prop :=
      fun x y => TransGen r y.1 x.1
    have htrans : IsTrans _ below := ⟨fun _ _ _ hxy hyz => TransGen.trans hyz hxy⟩
    have hirrefl : Std.Irrefl below := ⟨fun x hcycle => hacyclic x.1 x.2 hcycle⟩
    have hwf : WellFounded below := Finite.wellFounded_of_trans_of_irrefl below
    have hacc : ∀ x : {b // ReflTransGen r a b}, Acc (flip r) x.1 := by
      intro x
      induction x using hwf.induction with
      | _ x ih =>
        refine Acc.intro x.1 ?_
        intro b hstep
        exact ih ⟨b, x.2.tail hstep⟩ (TransGen.single hstep)
    exact hacc ⟨a, .refl⟩

theorem exists_common_bound {fits : Nat → α → Bool}
    (hmono : ∀ depth more a, depth ≤ more → fits depth a = true → fits more a = true)
    {points : List α} (hpoints : ∀ a ∈ points, ∃ depth, fits depth a = true) :
    ∃ depth, ∀ a ∈ points, fits depth a = true := by
  induction points with
  | nil => exact ⟨0, fun a ha => by cases ha⟩
  | cons first rest ih =>
    obtain ⟨depth, hfirst⟩ := hpoints first (.head _)
    obtain ⟨more, hrest⟩ := ih fun a ha => hpoints a (.tail _ ha)
    refine ⟨max depth more, ?_⟩
    intro a ha
    rcases List.mem_cons.mp ha with rfl | ha
    · exact hmono _ _ _ (Nat.le_max_left _ _) hfirst
    · exact hmono _ _ _ (Nat.le_max_right _ _) (hrest a ha)

/-- A bound on the number of steps suffices at a point when one less suffices at every point below.
-/
structure Bounded (below : α → List α) (fits : Nat → α → Bool) : Prop where
  /-- No step left. -/
  zero : ∀ a, fits 0 a = true → below a = []
  /-- One step more. -/
  succ : ∀ depth a, fits (depth + 1) a = (below a).all (fits depth)

variable {below : α → List α} {fits : Nat → α → Bool}

theorem Bounded.mono_succ (h : Bounded below fits) {depth : Nat} {a : α}
    (hfits : fits depth a = true) : fits (depth + 1) a = true := by
  induction depth generalizing a with
  | zero =>
    rw [h.succ, h.zero a hfits]
    rfl
  | succ depth ih =>
    rw [h.succ, List.all_eq_true] at hfits ⊢
    intro b hb
    exact ih (hfits b hb)

theorem Bounded.mono (h : Bounded below fits) {depth more : Nat} {a : α} (hle : depth ≤ more)
    (hfits : fits depth a = true) : fits more a = true := by
  induction hle with
  | refl => exact hfits
  | step _ ih => exact h.mono_succ ih

theorem Bounded.exists_iff_acc (h : Bounded below fits) {a : α} :
    (∃ depth, fits depth a = true) ↔ Acc (flip fun a b => b ∈ below a) a := by
  constructor
  · rintro ⟨depth, hfits⟩
    induction depth generalizing a with
    | zero =>
      refine Acc.intro a ?_
      intro b hb
      have hb' : b ∈ below a := hb
      rw [h.zero a hfits] at hb'
      cases hb'
    | succ depth ih =>
      rw [h.succ, List.all_eq_true] at hfits
      exact Acc.intro a fun b hb => ih (hfits b hb)
  · intro hacc
    induction hacc with
    | intro a _ ih =>
      have hbelow : ∀ b ∈ below a, ∃ depth, fits depth b = true := ih
      have hmono : ∀ depth more b, depth ≤ more → fits depth b = true → fits more b = true :=
        fun _ _ _ hle hfits => h.mono hle hfits
      obtain ⟨depth, hdepth⟩ := exists_common_bound hmono hbelow
      refine ⟨depth + 1, ?_⟩
      rw [h.succ, List.all_eq_true]
      exact hdepth

theorem Bounded.exists_iff_acyclic (h : Bounded below fits) {a : α}
    (hfinite : {b | ReflTransGen (fun a b => b ∈ below a) a b}.Finite) :
    (∃ depth, fits depth a = true) ↔ ∀ b, ReflTransGen (fun a b => b ∈ below a) a b →
      ¬ TransGen (fun a b => b ∈ below a) b b := by
  rw [h.exists_iff_acc, acc_iff_forall_not_transGen hfinite]

end Stynx.FiniteDescent
