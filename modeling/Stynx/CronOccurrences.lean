import Stynx.CronProbes

/-!
# The next run is the least occurrence

An occurrence is the last instant at which the clock of a zone shows a matching minute, or the
first one after a jump over a matching minute.
-/

namespace Stynx.Cron

open OffsetClocks

variable {offset : Int → Int} {resolve : Int → WallMinute} {first last date : Int}
  {parsed : ParsedCron} {best : Option Int}

theorem mem_parsePart {range : FieldRange} {part : List Char} {values : List Nat}
    (h : parsePart range part = some values) {v : Nat} (hv : v ∈ values) : v ≤ range.max := by
  obtain ⟨⟨base, step, hasStep⟩, -, hrest⟩ := Option.bind_eq_some_iff.mp h
  obtain ⟨⟨start, last⟩, -, hvalues⟩ := Option.bind_eq_some_iff.mp hrest
  dsimp only at hvalues
  split at hvalues
  case isTrue => cases hvalues
  case isFalse hin =>
    cases hvalues
    obtain ⟨i, hi, rfl⟩ := List.mem_map.mp hv
    have hle : i * step ≤ (last - start) / step * step :=
      Nat.mul_le_mul_right step (Nat.lt_succ_iff.mp (List.mem_range.mp hi))
    have hdiv := Nat.div_mul_le_self (last - start) step
    omega

theorem exists_of_mem_mapM {α β : Type} {f : α → Option β} {l : List α} {values : List β}
    (h : l.mapM f = some values) {b : β} (hb : b ∈ values) : ∃ a, f a = some b := by
  induction l generalizing values with
  | nil =>
    cases h
    cases hb
  | cons a rest ih =>
    rw [List.mapM_cons] at h
    obtain ⟨first, hfirst, hrest⟩ := Option.bind_eq_some_iff.mp h
    obtain ⟨others, hothers, hvalues⟩ := Option.bind_eq_some_iff.mp hrest
    cases hvalues
    rcases List.mem_cons.mp hb with rfl | hmem
    · exact ⟨a, hfirst⟩
    · exact ih hothers hmem

theorem mem_parseField {range : FieldRange} {raw : List Char} {values : List Nat}
    (h : parseField range raw = some values) {v : Nat} (hv : v ∈ values) : v ≤ range.max := by
  obtain ⟨parts, hparts, rfl⟩ := Option.map_eq_some_iff.mp h
  obtain ⟨part, hpart, hmem⟩ := List.mem_flatten.mp (List.mem_eraseDups.mp hv)
  obtain ⟨text, htext⟩ := exists_of_mem_mapM hparts hpart
  exact mem_parsePart htext hmem

theorem ofDay_of_parse {expression : String} (h : parseCronExpression expression = some parsed) :
    parsed.OfDay := by
  unfold parseCronExpression at h
  split at h
  case h_2 => cases h
  case h_1 =>
    split at h
    case h_2 => cases h
    case h_1 hminute hhour _ _ _ =>
      cases h
      exact ⟨fun hour hmem => Nat.lt_succ_of_le (mem_parseField hhour hmem),
        fun minute hmem => Nat.lt_succ_of_le (mem_parseField hminute hmem)⟩

/-- An instant of the search at which something is due on a date. -/
def Candidate (offset : Int → Int) (parsed : ParsedCron) (first last date x : Int) : Prop :=
  ∃ m t, dateOf m = date ∧ Matches parsed m ∧ x = t * minuteMs ∧
    (LastShown offset first last m t ∨ first ≤ t ∧ t ≤ last ∧ Skips offset m t)

/-- The clock of a zone shows what its offsets say, from the year 100 on. -/
def Shows (offset : Int → Int) (resolve : Int → WallMinute) : Prop :=
  ∀ t, firstDate ≤ dateOf (clock offset t) →
    wallTime (resolve (t * minuteMs)) = clock offset t * minuteMs

theorem skips_transitionAt (t : Int) :
    skips parsed (utcWall (date * dayMs)) (transitionAt offset t) = true ↔
      ∃ m, dateOf m = date ∧ Matches parsed m ∧ Skips offset m t := by
  have hlength : ((transitionAt offset t).after - (transitionAt offset t).before) / minuteMs =
      offset t - offset (t - 1) := by
    rw [transitionAt, ← Int.sub_mul, Int.mul_ediv_cancel _ (by decide)]
  have hminute : ∀ i : Nat, (transitionAt offset t).«at» + (transitionAt offset t).before +
      i * minuteMs = (t + offset (t - 1) + i) * minuteMs := by
    intro i
    rw [transitionAt, Int.add_mul, Int.add_mul]
  simp only [skips, hlength, hminute, List.any_eq_true, List.mem_range, Bool.and_eq_true,
    decide_eq_true_eq]
  constructor
  · rintro ⟨i, hi, ⟨⟨hyear, hmonth⟩, hday⟩, hmatch⟩
    refine ⟨_, dateOf_eq_of_fields hyear hmonth hday, hmatch, ?_, ?_⟩
    all_goals
      simp only [clock]
      omega
  · rintro ⟨m, hdate, hmatch, hlow, hhigh⟩
    simp only [clock] at hlow hhigh
    have hm : t + offset (t - 1) + ((m - t - offset (t - 1)).toNat : Nat) = m := by omega
    refine ⟨(m - t - offset (t - 1)).toNat, by omega, ?_⟩
    rw [hm]
    obtain ⟨hyear, hmonth, hday⟩ := fields_of_dateOf_eq hdate
    exact ⟨⟨⟨hyear, hmonth⟩, hday⟩, hmatch⟩

theorem jumps_least {S : Int → Prop} (h : Least S best) {transitions : List Transition} {low high : Int}
    (htransitions : ∀ x, x ∈ transitions ↔ ∃ t, low < t ∧ t ≤ high ∧ Changes offset t ∧
      x = transitionAt offset t)
    (hwindow : ∀ m t, dateOf m = date → Skips offset m t → low < t ∧ t ≤ high) :
    Least (fun x => S x ∨ ∃ m t, dateOf m = date ∧ Matches parsed m ∧ x = t * minuteMs ∧
      first ≤ t ∧ t ≤ last ∧ Skips offset m t)
      (jumps parsed (first * minuteMs) (last * minuteMs) (utcWall (date * dayMs)) transitions best) := by
  have hfold : Least (fun x => S x ∨ ∃ transition ∈ transitions, x = transition.«at» ∧
      transition.before < transition.after ∧ first * minuteMs ≤ x ∧ x ≤ last * minuteMs ∧
      skips parsed (utcWall (date * dayMs)) transition = true)
      (jumps parsed (first * minuteMs) (last * minuteMs) (utcWall (date * dayMs)) transitions best) := by
    refine Least.foldl (fun S best transition _ h => ?_) h
    split
    case isTrue hout =>
      refine h.congr fun x => (or_iff_left ?_).symm
      rintro ⟨rfl, hforward, hlow, hhigh, -⟩
      omega
    case isFalse hin =>
      split
      case isTrue hskips =>
        refine (h.earlier _).congr fun x => or_congr_right ⟨?_, fun hx => hx.1⟩
        rintro rfl
        exact ⟨rfl, by omega, by omega, by omega, hskips⟩
      case isFalse hskips =>
        refine h.congr fun x => (or_iff_left ?_).symm
        rintro ⟨-, -, -, -, hfalse⟩
        exact hskips hfalse
  refine hfold.congr fun x => or_congr_right ⟨?_, ?_⟩
  · rintro ⟨transition, hmem, rfl, -, hlow, hhigh, hskips⟩
    obtain ⟨t, -, -, -, rfl⟩ := (htransitions transition).mp hmem
    obtain ⟨m, hdate, hmatch, hskip⟩ := (skips_transitionAt t).mp hskips
    exact ⟨m, t, hdate, hmatch, rfl, Int.le_of_mul_le_mul_right hlow (by decide),
      Int.le_of_mul_le_mul_right hhigh (by decide), hskip⟩
  · rintro ⟨m, t, hdate, hmatch, rfl, hlow, hhigh, hskip⟩
    obtain ⟨hfrom, hto⟩ := hwindow m t hdate hskip
    refine ⟨transitionAt offset t, (htransitions _).mpr ⟨t, hfrom, hto, hskip.changes, rfl⟩, rfl, ?_,
      Int.mul_le_mul_of_nonneg_right hlow (by decide),
      Int.mul_le_mul_of_nonneg_right hhigh (by decide),
      (skips_transitionAt t).mpr ⟨m, hdate, hmatch, hskip⟩⟩
    have hlow' := hskip.1
    have hhigh' := hskip.2
    simp only [clock] at hlow' hhigh'
    exact Int.mul_lt_mul_of_pos_right (by omega) (by decide)

theorem dateMatches_of_matches {m : Int} (hdate : firstDate ≤ dateOf m) (h : Matches parsed m) :
    DateMatches parsed (dateOf m) := by
  obtain ⟨hour, minute, hhour, hminute, heq⟩ := minute_eq m
  rw [heq] at h
  exact ((matches_iff hdate hhour hminute).mp h).1

theorem offset_eq_probe (hspaced : Spaced sixHours offset) {p t : Int} (hlow : p ≤ t)
    (hhigh : t ≤ p + sixHours) : offset t = offset p ∨ offset t = offset (p + sixHours) := by
  by_cases hchange : ∃ u, p < u ∧ u ≤ t ∧ Changes offset u
  · obtain ⟨u, hlt, hle, hu⟩ := hchange
    refine .inr ?_
    rw [hspaced.offset_eq_after hu hle (by omega),
      hspaced.offset_eq_after hu (hle.trans hhigh) (by omega)]
  · refine .inl (offset_eq_of_unchanged hlow fun u hlt hle hu => hchange ⟨u, hlt, hle, hu⟩)

theorem searchDay_zone_least (hday : parsed.OfDay) (hspaced : Spaced sixHours offset)
    (hbounded : ∀ t, -1440 ≤ offset t ∧ offset t ≤ 1440) (hshows : Shows offset resolve)
    (hdate : firstDate + 2 ≤ date)
    (hfirst : ∀ t, first ≤ t → t ≤ last → firstDate ≤ dateOf (clock offset t)) :
    Least (Candidate offset parsed first last date)
      (searchDay parsed (some resolve) (first * minuteMs) (last * minuteMs) (date * dayMs)) := by
  rw [searchDay]
  dsimp only
  split
  case isTrue hskipped =>
    rintro x ⟨m, t, rfl, hmatch, -⟩
    obtain ⟨hmonth, hmatchesDay⟩ := dateMatches_of_matches (by omega) hmatch
    rw [hmonth, hmatchesDay] at hskipped
    rcases hskipped with hfalse | hfalse
    all_goals cases hfalse
  case isFalse hkept =>
    rw [not_or, Bool.not_eq_false, Bool.not_eq_false] at hkept
    have hstart : date * dayMs - dayMs = (date * 1440 - 1440) * minuteMs := by
      simp only [dayMs, minuteMs]
      omega
    have hwindow : Agrees offset resolve (date * 1440 - 1440)
        (date * 1440 - 1440 + (12 : Nat) * sixHours) := by
      intro t hlow hhigh
      refine hshows t ?_
      have := (hbounded t).1
      simp only [dateOf, clock]
      omega
    have hown : wallTime (resolve ((date * 1440 - 1440) * minuteMs)) - (date * 1440 - 1440) * minuteMs =
        offset (date * 1440 - 1440) * minuteMs :=
      hwindow.reads _ (Int.le_refl _) (by simp only [sixHours]; omega)
    have hprobed := probe_probed hspaced hwindow.reads
      ([offset (date * 1440 - 1440) * minuteMs], [])
    rw [hstart, hown]
    generalize probe (fun time => wallTime (resolve time) - time) 12
      ((date * 1440 - 1440) * minuteMs) ([offset (date * 1440 - 1440) * minuteMs], []) = found at hprobed ⊢
    have htransitions : ∀ x, x ∈ found.2 ↔ ∃ t, date * 1440 - 1440 < t ∧
        t ≤ date * 1440 - 1440 + (12 : Nat) * sixHours ∧ Changes offset t ∧
        x = transitionAt offset t := by
      intro x
      rw [hprobed.transitions, or_iff_right List.not_mem_nil]
    have hskips : ∀ m t, dateOf m = date → Skips offset m t → date * 1440 - 1440 < t ∧
        t ≤ date * 1440 - 1440 + (12 : Nat) * sixHours := by
      intro m t hm hskip
      have hlow := hskip.1
      have hhigh := hskip.2
      have := hbounded t
      have := hbounded (t - 1)
      simp only [clock, dateOf, sixHours] at hlow hhigh hm ⊢
      omega
    have hwhole : ∀ o ∈ found.1, ∃ k, o = k * minuteMs := by
      intro o ho
      rcases (hprobed.offsets o).mp ho with hinit | ⟨i, -, -, rfl⟩
      · exact ⟨_, List.mem_singleton.mp hinit⟩
      · exact ⟨_, rfl⟩
    have hprobe : ∀ i : Nat, i ≤ 12 →
        offset (date * 1440 - 1440 + i * sixHours) * minuteMs ∈ found.1 := by
      intro i hi
      rw [hprobed.offsets]
      rcases Nat.eq_zero_or_pos i with rfl | hpos
      · refine .inl (List.mem_singleton.mpr ?_)
        rw [Int.natCast_zero, Int.zero_mul, Int.add_zero]
      · exact .inr ⟨i, hpos, hi, rfl⟩
    have hagrees : Agrees offset resolve first last :=
      fun t hlow hhigh => hshows t (hfirst t hlow hhigh)
    have hleast := dayMatch_least hday (by omega) hkept hagrees hwhole fun t hlow hhigh hshown => ?_
    · refine (jumps_least hleast htransitions hskips).congr fun x => ⟨?_, ?_⟩
      · rintro (⟨m, t, hm, hmatch, rfl, hshown⟩ | ⟨m, t, hm, hmatch, rfl, hlow, hhigh, hskip⟩)
        · exact ⟨m, t, hm, hmatch, rfl, .inl hshown⟩
        · exact ⟨m, t, hm, hmatch, rfl, .inr ⟨hlow, hhigh, hskip⟩⟩
      · rintro ⟨m, t, hm, hmatch, rfl, hshown | ⟨hlow, hhigh, hskip⟩⟩
        · exact .inl ⟨m, t, hm, hmatch, rfl, hshown⟩
        · exact .inr ⟨m, t, hm, hmatch, rfl, hlow, hhigh, hskip⟩
    · -- the instant lies between two probes
      have := hbounded t
      simp only [dateOf, clock] at hshown
      obtain ⟨i, hi⟩ : ∃ i : Nat, (i : Int) = (t - (date * 1440 - 1440)) / sixHours :=
        ⟨_, Int.toNat_of_nonneg (by simp only [sixHours]; omega)⟩
      simp only [sixHours] at hi
      have hnear := offset_eq_probe hspaced (t := t) (p := date * 1440 - 1440 + i * sixHours)
        (by simp only [sixHours]; omega) (by simp only [sixHours]; omega)
      rcases hnear with heq | heq
      · rw [heq]
        exact hprobe i (by omega)
      · have hnext : date * 1440 - 1440 + i * sixHours + sixHours =
            date * 1440 - 1440 + (i + 1 : Nat) * sixHours := by
          simp only [sixHours]
          omega
        rw [heq, hnext]
        exact hprobe (i + 1) (by omega)

theorem searchDay_utc_least (hday : parsed.OfDay) (hdate : firstDate ≤ date)
    (hfirst : ∀ t, first ≤ t → t ≤ last → firstDate ≤ dateOf t) :
    Least (Candidate (fun _ => 0) parsed first last date)
      (searchDay parsed none (first * minuteMs) (last * minuteMs) (date * dayMs)) := by
  have hclock : ∀ t, clock (fun _ => 0) t = t := fun t => Int.add_zero t
  rw [searchDay]
  split
  case isTrue hskipped =>
    rintro x ⟨m, t, rfl, hmatch, -⟩
    obtain ⟨hmonth, hmatchesDay⟩ := dateMatches_of_matches hdate hmatch
    rw [hmonth, hmatchesDay] at hskipped
    rcases hskipped with hfalse | hfalse
    all_goals cases hfalse
  case isFalse hkept =>
    rw [not_or, Bool.not_eq_false, Bool.not_eq_false] at hkept
    have hagrees : Agrees (fun _ => 0) utcWall first last := fun t hlow hhigh => by
      rw [hclock, wallTime_utcWall (hfirst t hlow hhigh)]
    refine (dayMatch_least hday hdate hkept hagrees (fun o ho => ⟨0, ?_⟩) fun t _ _ _ => ?_).congr
      fun x => ?_
    · rw [List.mem_singleton.mp ho, Int.zero_mul]
    · rw [Int.zero_mul]
      exact List.mem_singleton_self _
    · constructor
      · rintro ⟨m, t, hm, hmatch, rfl, hshown⟩
        exact ⟨m, t, hm, hmatch, rfl, .inl hshown⟩
      · rintro ⟨m, t, hm, hmatch, rfl, hshown | ⟨-, -, hskip⟩⟩
        · exact ⟨m, t, hm, hmatch, rfl, hshown⟩
        · have hlow := hskip.1
          have hhigh := hskip.2
          rw [hclock] at hlow hhigh
          omega

end Stynx.Cron
