import Mathlib.Algebra.Order.Group.Int
import Mathlib.Data.Int.Interval
import Mathlib.Data.Int.LeastGreatest

/-!
# Clocks that are set forward and back

A clock shows an instant plus an offset that changes now and then. Where changes are apart by at least
as much as the clock is ever set back, it has caught up with itself before the next change: what it
skips when it is set forward, it never shows.
-/

namespace Stynx.OffsetClocks

variable {offset : Int → Int} {gap bound : Int} {t u m : Int}

def clock (offset : Int → Int) (t : Int) : Int := t + offset t

def Changes (offset : Int → Int) (t : Int) : Prop := offset (t - 1) ≠ offset t

/-- The clock is set forward at `t`, over `m`. -/
def Skips (offset : Int → Int) (m t : Int) : Prop := clock offset (t - 1) < m ∧ m < clock offset t

/-- `t` is the last instant at which the clock shows `m`. -/
def Latest (offset : Int → Int) (m t : Int) : Prop :=
  clock offset t = m ∧ ∀ u, t < u → clock offset u ≠ m

def Due (offset : Int → Int) (m t : Int) : Prop := Latest offset m t ∨ Skips offset m t

def Spaced (gap : Int) (offset : Int → Int) : Prop :=
  ∀ t u, Changes offset t → Changes offset u → t < u → t + gap ≤ u

/-- A clock that catches up with itself before the next change. -/
structure Paced (gap bound : Int) (offset : Int → Int) : Prop where
  spaced : Spaced gap offset
  /-- The clock is set back by no more than that. -/
  back : ∀ t, offset (t - 1) - offset t ≤ gap
  bounded : ∀ t, -bound ≤ offset t ∧ offset t ≤ bound

theorem Skips.changes (h : Skips offset m t) : Changes offset t := by
  intro heq
  have hlow := h.1
  have hhigh := h.2
  simp only [clock] at hlow hhigh
  omega

theorem offset_eq_of_unchanged (hle : t ≤ u) (h : ∀ v, t < v → v ≤ u → ¬ Changes offset v) :
    offset u = offset t := by
  induction u, hle using Int.leInduction with
  | base => rfl
  | succ u hle ih =>
    have hlast := h (u + 1) (by omega) (Int.le_refl _)
    rw [Changes, not_not, Int.add_sub_cancel] at hlast
    rw [← hlast]
    exact ih fun v hlt hv => h v hlt (by omega)

theorem Spaced.offset_eq_after (h : Spaced gap offset) (ht : Changes offset t) (hle : t ≤ u)
    (hu : u < t + gap) : offset u = offset t := by
  refine offset_eq_of_unchanged hle fun v hlt hv hchange => ?_
  have := h t v ht hchange hlt
  omega

theorem Spaced.offset_eq_before (h : Spaced gap offset) (ht : Changes offset t) (hu : t - gap ≤ u)
    (hlt : u < t) : offset u = offset (t - 1) := by
  refine (offset_eq_of_unchanged (by omega) fun v hv hle hchange => ?_).symm
  have := h v t hchange ht (by omega)
  omega

namespace Paced

variable (h : Paced gap bound offset)

include h

theorem clock_change_le (ht : Changes offset t) (hle : t ≤ u) :
    clock offset t ≤ clock offset u := by
  obtain ⟨n, rfl⟩ := Int.le.dest hle
  induction n using Nat.strong_induction_on with
  | _ n ih =>
    by_cases hn : n = 0
    · subst hn
      exact le_of_eq (by rw [Int.natCast_zero, Int.add_zero])
    · have hprevious := ih (n - 1) (by omega) (by omega)
      have hpred : t + ((n - 1 : Nat) : Int) = t + n - 1 := by omega
      rw [hpred] at hprevious
      by_cases hback : offset (t + n) < offset (t + n - 1)
      · -- the clock has caught up with itself since the change before
        have hchange : Changes offset (t + n) := fun heq => by omega
        have hgap := h.spaced t (t + n) ht hchange (by omega)
        have hset := h.back (t + n)
        by_cases hzero : gap ≤ 0
        · omega
        · have hcaught := ih (n - gap.toNat) (by omega) (by omega)
          have hindex : t + ((n - gap.toNat : Nat) : Int) = t + n - gap := by omega
          rw [hindex] at hcaught
          have hsame := h.spaced.offset_eq_before hchange (u := t + n - gap) (by omega) (by omega)
          simp only [clock] at hcaught ⊢
          omega
      · simp only [clock] at hprevious ⊢
        omega

theorem clock_le_change (ht : Changes offset t) (hlt : u < t) :
    clock offset u ≤ clock offset (t - 1) := by
  obtain ⟨n, hn⟩ := Int.le.dest (Int.le_sub_one_of_lt hlt)
  have hu : u = t - 1 - n := by omega
  subst hu
  clear hlt hn
  induction n using Nat.strong_induction_on with
  | _ n ih =>
    by_cases hn : n = 0
    · subst hn
      exact le_of_eq (by rw [Int.natCast_zero, Int.sub_zero])
    · have hnext := ih (n - 1) (by omega)
      have hsucc : t - 1 - ((n - 1 : Nat) : Int) = t - n := by omega
      rw [hsucc] at hnext
      have hindex : t - 1 - (n : Int) = t - n - 1 := by omega
      rw [hindex]
      by_cases hback : offset (t - n) < offset (t - n - 1)
      · -- the clock catches up with itself before the change
        have hchange : Changes offset (t - n) := fun heq => by omega
        have hgap := h.spaced (t - n) t hchange ht (by omega)
        have hset := h.back (t - n)
        have hcaught := ih (n - gap.toNat) (by omega)
        have hlater : t - 1 - ((n - gap.toNat : Nat) : Int) = t - n - 1 + gap := by omega
        rw [hlater] at hcaught
        have hsame := h.spaced.offset_eq_after hchange (u := t - n - 1 + gap) (by omega) (by omega)
        simp only [clock] at hcaught ⊢
        omega
      · simp only [clock] at hnext ⊢
        omega

theorem exists_clock_gt (m t : Int) : ∃ u, t < u ∧ m < clock offset u := by
  refine ⟨max t (m + bound) + 1, by omega, ?_⟩
  have := (h.bounded (max t (m + bound) + 1)).1
  rw [clock]
  omega

theorem exists_passes (hlow : clock offset t < m) : ∃ u, t < u ∧
    (clock offset u = m ∨ Skips offset m u) := by
  obtain ⟨last, hlast, hhigh⟩ := h.exists_clock_gt m t
  obtain ⟨u, ⟨htu, hu⟩, hleast⟩ := Int.exists_least_of_bdd (P := fun u => t < u ∧ m ≤ clock offset u)
    ⟨t, fun z hz => hz.1.le⟩ ⟨last, hlast, hhigh.le⟩
  refine ⟨u, htu, (eq_or_lt_of_le hu).imp Eq.symm fun hlt => ⟨?_, hlt⟩⟩
  by_cases hprevious : t < u - 1
  · refine not_le.mp fun hle => ?_
    have := hleast (u - 1) ⟨hprevious, hle⟩
    omega
  · rwa [show u - 1 = t by omega]

theorem lt_clock_of_due {o : Int} (hdue : Due offset m o) (hlt : o < t) : m < clock offset t := by
  rcases hdue with ⟨hshown, hlast⟩ | hskips
  · refine not_le.mp fun hle => ?_
    have hlow : clock offset t < m := lt_of_le_of_ne hle (hlast t hlt)
    obtain ⟨u, htu, hu⟩ := h.exists_passes hlow
    rcases hu with hagain | hskips
    · exact hlast u (hlt.trans htu) hagain
    · -- what is skipped was not shown before
      have hbefore := h.clock_le_change hskips.changes (hlt.trans htu)
      have := hskips.1
      omega
  · exact hskips.2.trans_le (h.clock_change_le hskips.changes hlt.le)

theorem due_le_due {m' o o' : Int} (hdue : Due offset m o) (hdue' : Due offset m' o') (hlt : m' < m) :
    o' ≤ o := by
  refine not_lt.mp fun hafter => ?_
  rcases hdue' with ⟨hshown, -⟩ | hskips
  · have := h.lt_clock_of_due hdue hafter
    omega
  · have hlow := hskips.1
    rcases Int.lt_or_eq_of_le (Int.le_sub_one_of_lt hafter) with hbetween | heq
    · have := h.lt_clock_of_due hdue hbetween
      omega
    · subst heq
      rcases hdue with ⟨hshown, -⟩ | hskips'
      · omega
      · have := hskips'.2
        omega

end Paced

end Stynx.OffsetClocks
