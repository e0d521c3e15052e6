import Stynx.CronSearch

/-!
# Probes of a window

Where changes of the offset are six hours apart, there is at most one between two probes, and the
bisection finds it.
-/

namespace Stynx.Cron

open OffsetClocks

variable {offset offsetAt : Int → Int} {first last date : Int} {parsed : ParsedCron}

/-- The minutes between two probes. -/
def sixHours : Int := 360

/-- The offsets of a zone are what the code computes of it, at all instants between two. -/
def Reads (offset offsetAt : Int → Int) (first last : Int) : Prop :=
  ∀ t, first ≤ t → t ≤ last → offsetAt (t * minuteMs) = offset t * minuteMs

theorem Agrees.reads {resolve : Int → WallMinute} (h : Agrees offset resolve first last) :
    Reads offset (fun time => wallTime (resolve time) - time) first last := by
  intro t hfirst hlast
  dsimp only
  rw [h t hfirst hlast, ← Int.sub_mul, clock, add_sub_cancel_left]

theorem bisect_eq {low high t : Int} {fuel : Nat} (hreads : Reads offset offsetAt low high)
    (hlow : low < t) (hhigh : t ≤ high) (hfuel : high - low ≤ fuel + 1) {previous : Int}
    (hbefore : ∀ u, low ≤ u → u < t → offset u = previous)
    (hafter : ∀ u, t ≤ u → u ≤ high → offset u ≠ previous) :
    bisect offsetAt (previous * minuteMs) fuel low high = t := by
  induction fuel generalizing low high with
  | zero =>
    rw [bisect]
    omega
  | succ fuel ih =>
    rw [bisect]
    split
    case isFalse => omega
    case isTrue hgap =>
      have hmiddle : low < (low + high) / 2 ∧ (low + high) / 2 < high := by omega
      dsimp only
      rw [hreads _ hmiddle.1.le hmiddle.2.le]
      push_cast at hfuel
      split
      case isTrue heq =>
        have hsame : offset ((low + high) / 2) = previous :=
          Int.eq_of_mul_eq_mul_right (by decide) heq
        have hlt : (low + high) / 2 < t :=
          not_le.mp fun hle => hafter _ hle hmiddle.2.le hsame
        exact ih (fun u hl hh => hreads u (by omega) hh) hlt hhigh (by omega)
          (fun u hl hu => hbefore u (by omega) hu) hafter
      case isFalse hne =>
        have hle : t ≤ (low + high) / 2 :=
          not_lt.mp fun hlt => hne (by rw [hbefore _ hmiddle.1.le hlt])
        exact ih (fun u hl hh => hreads u hl (by omega)) hlow hle (by omega) hbefore
          fun u hu hh => hafter u hu (by omega)

/-- A change of the offset as the code records it. -/
def transitionAt (offset : Int → Int) (t : Int) : Transition :=
  ⟨t * minuteMs, offset (t - 1) * minuteMs, offset t * minuteMs⟩

theorem exists_change_iff (hspaced : Spaced sixHours offset) {t : Int} :
    (∃ u, t < u ∧ u ≤ t + sixHours ∧ Changes offset u) ↔ offset (t + sixHours) ≠ offset t := by
  constructor
  · rintro ⟨u, hlt, hle, hchange⟩ hsame
    have hbefore := hspaced.offset_eq_before hchange (u := t) (by omega) hlt
    have hafter := hspaced.offset_eq_after hchange hle (by omega)
    exact hchange (by rw [← hbefore, ← hafter, hsame])
  · intro hne
    by_contra hnone
    refine hne (offset_eq_of_unchanged (by simp only [sixHours]; omega) fun u hlt hle hchange => ?_)
    exact hnone ⟨u, hlt, hle, hchange⟩

structure Probed (offset : Int → Int) (start : Int) (left : Nat) (before found : List Int × List Transition) :
    Prop where
  offsets : ∀ o, o ∈ found.1 ↔
    o ∈ before.1 ∨ ∃ i : Nat, 1 ≤ i ∧ i ≤ left ∧ o = offset (start + i * sixHours) * minuteMs
  transitions : ∀ x, x ∈ found.2 ↔
    x ∈ before.2 ∨ ∃ t, start < t ∧ t ≤ start + left * sixHours ∧ Changes offset t ∧
      x = transitionAt offset t

theorem probe_probed (hspaced : Spaced sixHours offset) {left : Nat} {start : Int}
    (hreads : Reads offset offsetAt start (start + left * sixHours))
    (before : List Int × List Transition) :
    Probed offset start left before (probe offsetAt left (start * minuteMs) before) := by
  induction left generalizing start before with
  | zero =>
    refine ⟨fun o => (or_iff_left ?_).symm, fun x => (or_iff_left ?_).symm⟩
    · rintro ⟨i, hi, hle, -⟩
      omega
    · rintro ⟨t, hlt, hle, -⟩
      simp only [sixHours] at hle
      omega
  | succ left ih =>
    have hnext : start * minuteMs + 6 * 60 * minuteMs = (start + sixHours) * minuteMs := by
      simp only [minuteMs, sixHours]
      omega
    have hlength : start + (left + 1 : Nat) * sixHours = start + sixHours + left * sixHours := by
      push_cast
      simp only [sixHours]
      omega
    have hown := hreads start (Int.le_refl _) (by simp only [sixHours]; omega)
    have hthen := hreads (start + sixHours) (by simp only [sixHours]; omega)
      (by simp only [sixHours]; omega)
    have hreadsRest : Reads offset offsetAt (start + sixHours) (start + sixHours + left * sixHours) :=
      fun t hlow hhigh => hreads t (by simp only [sixHours] at hlow; omega) (hlength ▸ hhigh)
    have hrest := fun found => ih hreadsRest found
    -- what one probe adds
    have hoffset : offsetAt ((start + sixHours) * minuteMs) ≠ offsetAt (start * minuteMs) ↔
        offset (start + sixHours) ≠ offset start := by
      rw [hown, hthen]
      refine not_congr ⟨Int.eq_of_mul_eq_mul_right (by decide), fun heq => by rw [heq]⟩
    have hadded : ∀ x, x ∈ (if offsetAt ((start + sixHours) * minuteMs) ≠ offsetAt (start * minuteMs) then
        before.2 ++ [⟨bisect offsetAt (offsetAt (start * minuteMs)) 360 (start * minuteMs / minuteMs)
          ((start + sixHours) * minuteMs / minuteMs) * minuteMs, offsetAt (start * minuteMs),
          offsetAt ((start + sixHours) * minuteMs)⟩] else before.2) ↔
        x ∈ before.2 ∨ ∃ t, start < t ∧ t ≤ start + sixHours ∧ Changes offset t ∧
          x = transitionAt offset t := by
      intro x
      split
      case isTrue hne =>
        obtain ⟨t, hlow, hhigh, hchange⟩ := (exists_change_iff hspaced).mpr (hoffset.mp hne)
        have hbefore : ∀ u, start ≤ u → u < t → offset u = offset start := fun u hu hlt => by
          rw [hspaced.offset_eq_before hchange (u := u) (by omega) hlt,
            hspaced.offset_eq_before hchange (u := start) (by omega) hlow]
        have hafter : ∀ u, t ≤ u → u ≤ start + sixHours → offset u = offset (start + sixHours) :=
          fun u hu hle => by
            rw [hspaced.offset_eq_after hchange hu (by omega),
              hspaced.offset_eq_after hchange (u := start + sixHours) hhigh (by omega)]
        have hwindow : Reads offset offsetAt start (start + sixHours) := fun u hl hh =>
          hreads u hl (by simp only [sixHours] at hh ⊢; omega)
        have hfuel : start + sixHours - start ≤ (360 : Nat) + 1 := by simp only [sixHours]; omega
        have hbisect := bisect_eq hwindow hlow hhigh hfuel hbefore
          fun u hu hle => by rw [hafter u hu hle]; exact hoffset.mp hne
        have hfound : transitionAt offset t = ⟨t * minuteMs, offset start * minuteMs,
            offset (start + sixHours) * minuteMs⟩ := by
          rw [transitionAt, hbefore (t - 1) (by omega) (by omega), hafter t (Int.le_refl _) hhigh]
        rw [Int.mul_ediv_cancel _ (by decide : minuteMs ≠ 0),
          Int.mul_ediv_cancel _ (by decide : minuteMs ≠ 0), hown, hthen, hbisect, List.mem_append,
          List.mem_singleton, ← hfound]
        refine or_congr_right ⟨fun heq => ⟨t, hlow, hhigh, hchange, heq⟩, ?_⟩
        rintro ⟨u, hlow', hhigh', hchange', rfl⟩
        -- there is no other change
        rcases lt_trichotomy t u with hlt | rfl | hlt
        · have := hspaced t u hchange hchange' hlt
          omega
        · rfl
        · have := hspaced u t hchange' hchange hlt
          omega
      case isFalse heq =>
        refine (or_iff_left ?_).symm
        rintro ⟨t, hlow, hhigh, hchange, -⟩
        refine heq (hoffset.mpr ?_)
        exact (exists_change_iff hspaced).mp ⟨t, hlow, hhigh, hchange⟩
    rw [probe, hnext]
    obtain ⟨hoffsets, htransitions⟩ := hrest _
    refine ⟨fun o => ?_, fun x => ?_⟩
    · rw [hoffsets]
      have hmem : o ∈ (if offsetAt ((start + sixHours) * minuteMs) ∈ before.1 then before.1
          else before.1 ++ [offsetAt ((start + sixHours) * minuteMs)]) ↔
          o ∈ before.1 ∨ o = offset (start + sixHours) * minuteMs := by
        rw [hthen]
        split
        case isTrue hin => exact (or_iff_left_of_imp fun heq => heq ▸ hin).symm
        case isFalse => rw [List.mem_append, List.mem_singleton]
      rw [hmem, or_assoc]
      refine or_congr_right ⟨?_, ?_⟩
      · rintro (rfl | ⟨i, hi, hle, rfl⟩)
        · exact ⟨1, le_rfl, by omega, by rw [Int.natCast_one, Int.one_mul]⟩
        · have hindex : start + sixHours + i * sixHours = start + (i + 1 : Nat) * sixHours := by
            simp only [sixHours]
            omega
          exact ⟨i + 1, by omega, by omega, by rw [hindex]⟩
      · rintro ⟨i, hi, hle, rfl⟩
        rcases Nat.lt_or_eq_of_le hi with hlt | rfl
        · have hindex : start + i * sixHours = start + sixHours + (i - 1 : Nat) * sixHours := by
            simp only [sixHours]
            omega
          exact .inr ⟨i - 1, by omega, by omega, by rw [hindex]⟩
        · exact .inl (by rw [Int.natCast_one, Int.one_mul])
    · rw [htransitions, hadded, or_assoc, hlength]
      refine or_congr_right ⟨?_, ?_⟩
      · rintro (⟨t, hlow, hhigh, hrest⟩ | ⟨t, hlow, hhigh, hrest⟩)
        · exact ⟨t, hlow, by simp only [sixHours] at hhigh ⊢; omega, hrest⟩
        · exact ⟨t, by simp only [sixHours] at hlow; omega, hhigh, hrest⟩
      · rintro ⟨t, hlow, hhigh, hrest⟩
        by_cases hle : t ≤ start + sixHours
        · exact .inl ⟨t, hlow, hle, hrest⟩
        · exact .inr ⟨t, not_le.mp hle, hhigh, hrest⟩

end Stynx.Cron
