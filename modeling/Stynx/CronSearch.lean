import Stynx.CronCalendar

/-!
# The search of a day

The probes of a window find each change of the offset, so the hours and minutes of a date and the
jumps over its minutes give the least instant of the search at which a matching minute of the date is
shown last, or is skipped.
-/

namespace Stynx.Cron

open OffsetClocks

/-- An instant is the least one with a property; there is none without such an instant. -/
def Least (S : Int → Prop) : Option Int → Prop
  | none => ∀ x, ¬ S x
  | some best => S best ∧ ∀ x, S x → best ≤ x

/-- An instant is the greatest one with a property. -/
def Greatest (S : Int → Prop) : Option Int → Prop
  | none => ∀ x, ¬ S x
  | some best => S best ∧ ∀ x, S x → x ≤ best

variable {S T : Int → Prop} {best : Option Int}

theorem Least.congr (h : Least S best) (heq : ∀ x, S x ↔ T x) : Least T best := by
  have hsame : S = T := funext fun x => propext (heq x)
  exact hsame ▸ h

theorem Greatest.congr (h : Greatest S best) (heq : ∀ x, S x ↔ T x) : Greatest T best := by
  have hsame : S = T := funext fun x => propext (heq x)
  exact hsame ▸ h

theorem Least.earlier (h : Least S best) (t : Int) :
    Least (fun x => S x ∨ x = t) (earlier best t) := by
  cases best with
  | none => exact ⟨.inr rfl, fun x hx => (hx.resolve_left (h x)).ge⟩
  | some found =>
    rw [Cron.earlier]
    split
    case isTrue hlt =>
      exact ⟨.inr rfl, fun x hx => hx.elim (fun hold => hlt.le.trans (h.2 x hold)) fun heq => heq.ge⟩
    case isFalse hge =>
      refine ⟨.inl h.1, fun x hx => hx.elim (h.2 x) fun heq => ?_⟩
      omega

theorem Least.foldl {α : Type} {f : Option Int → α → Option Int} {R : α → Int → Prop} {l : List α}
    (hf : ∀ S best a, a ∈ l → Least S best → Least (fun x => S x ∨ R a x) (f best a))
    (h : Least S best) : Least (fun x => S x ∨ ∃ a ∈ l, R a x) (l.foldl f best) := by
  induction l generalizing S best with
  | nil => exact h.congr fun x => by simp
  | cons a rest ih =>
    have hrest := ih (fun S best b hb => hf S best b (.tail a hb)) (hf S best a (.head _) h)
    refine hrest.congr fun x => ?_
    simp only [List.mem_cons, exists_eq_or_imp, or_assoc]

variable {offset : Int → Int} {resolve : Int → WallMinute} {first last date : Int}
  {parsed : ParsedCron}

/-- The clock of a zone shows what its offsets say, at all instants between two. -/
def Agrees (offset : Int → Int) (resolve : Int → WallMinute) (first last : Int) : Prop :=
  ∀ t, first ≤ t → t ≤ last → wallTime (resolve (t * minuteMs)) = clock offset t * minuteMs

/-- `t` is the last instant of the search at which the clock shows `m`. -/
def LastShown (offset : Int → Int) (first last m t : Int) : Prop :=
  first ≤ t ∧ t ≤ last ∧ clock offset t = m ∧ ∀ u, t < u → u ≤ last → clock offset u ≠ m

theorem laterOf_greatest (hagrees : Agrees offset resolve first last) {offsets : List Int} {m : Int}
    (hwhole : ∀ o ∈ offsets, ∃ k, o = k * minuteMs)
    (hcover : ∀ t, first ≤ t → t ≤ last → clock offset t = m → offset t * minuteMs ∈ offsets) :
    Greatest (fun x => ∃ t, x = t * minuteMs ∧ first ≤ t ∧ t ≤ last ∧ clock offset t = m)
      (laterOf resolve offsets (first * minuteMs) (last * minuteMs) (m * minuteMs)) := by
  have hfold : ∀ (l : List Int) (S : Int → Prop) (later : Option Int), Greatest S later →
      Greatest (fun x => S x ∨ ∃ o ∈ l, x = m * minuteMs - o ∧ first * minuteMs ≤ x ∧
        x ≤ last * minuteMs ∧ wallTime (resolve x) = m * minuteMs)
        (l.foldl (fun later offset =>
          let time := m * minuteMs - offset
          if time < first * minuteMs ∨ time > last * minuteMs then later
          else if wallTime (resolve time) = m * minuteMs ∧ (later.all fun found => time > found)
            then some time
          else later) later) := by
    intro l
    induction l with
    | nil => exact fun S later h => h.congr fun x => by simp
    | cons o rest ih =>
      intro S later h
      have hnext : Greatest (fun x => S x ∨ x = m * minuteMs - o ∧ first * minuteMs ≤ x ∧
          x ≤ last * minuteMs ∧ wallTime (resolve x) = m * minuteMs)
          (if m * minuteMs - o < first * minuteMs ∨ m * minuteMs - o > last * minuteMs then later
          else if wallTime (resolve (m * minuteMs - o)) = m * minuteMs ∧
            (later.all fun found => m * minuteMs - o > found) then some (m * minuteMs - o)
          else later) := by
        split
        case isTrue hout =>
          refine h.congr fun x => (or_iff_left fun hx => ?_).symm
          omega
        case isFalse hin =>
          split
          case isTrue hshown =>
            refine ⟨.inr ⟨rfl, by omega, by omega, hshown.1⟩, fun x hx => ?_⟩
            rcases hx with hold | ⟨rfl, -⟩
            · cases later with
              | none => exact absurd hold (h x)
              | some found =>
                have hgreater : found < m * minuteMs - o := of_decide_eq_true hshown.2
                exact (h.2 x hold).trans hgreater.le
            · exact le_rfl
          case isFalse hnot =>
            cases later with
            | none =>
              refine h.congr fun x => (or_iff_left ?_).symm
              rintro ⟨rfl, -, -, hshown⟩
              exact hnot ⟨hshown, rfl⟩
            | some found =>
              refine ⟨.inl h.1, fun x hx => hx.elim (h.2 x) fun hx => ?_⟩
              refine not_lt.mp fun hlt => hnot ⟨hx.1 ▸ hx.2.2.2, ?_⟩
              exact decide_eq_true (hx.1 ▸ hlt)
      refine (ih _ _ hnext).congr fun x => ?_
      simp only [List.mem_cons, exists_eq_or_imp, or_assoc]
  have hall := hfold offsets (fun _ => False) none fun _ h => h
  refine hall.congr fun x => ?_
  rw [false_or]
  constructor
  · rintro ⟨o, ho, rfl, hlow, hhigh, hshown⟩
    obtain ⟨k, rfl⟩ := hwhole o ho
    have htime : m * minuteMs - k * minuteMs = (m - k) * minuteMs := (Int.sub_mul _ _ _).symm
    rw [htime] at hlow hhigh hshown ⊢
    have hfirst : first ≤ m - k := Int.le_of_mul_le_mul_right hlow (by decide)
    have hlast : m - k ≤ last := Int.le_of_mul_le_mul_right hhigh (by decide)
    rw [hagrees _ hfirst hlast] at hshown
    exact ⟨m - k, rfl, hfirst, hlast, Int.eq_of_mul_eq_mul_right (by decide) hshown⟩
  · rintro ⟨t, rfl, hfirst, hlast, hshown⟩
    refine ⟨offset t * minuteMs, hcover t hfirst hlast hshown, ?_, ?_, ?_, ?_⟩
    · rw [← Int.sub_mul, ← hshown, clock, Int.add_sub_cancel]
    · exact Int.mul_le_mul_of_nonneg_right hfirst (by decide)
    · exact Int.mul_le_mul_of_nonneg_right hlast (by decide)
    · rw [hagrees t hfirst hlast, hshown]

theorem laterOf_eq_some_iff (hagrees : Agrees offset resolve first last) {offsets : List Int} {m x : Int}
    (hwhole : ∀ o ∈ offsets, ∃ k, o = k * minuteMs)
    (hcover : ∀ t, first ≤ t → t ≤ last → clock offset t = m → offset t * minuteMs ∈ offsets) :
    laterOf resolve offsets (first * minuteMs) (last * minuteMs) (m * minuteMs) = some x ↔
      ∃ t, x = t * minuteMs ∧ LastShown offset first last m t := by
  have hgreatest := laterOf_greatest hagrees hwhole hcover
  constructor
  · intro heq
    rw [heq] at hgreatest
    obtain ⟨⟨t, rfl, hfirst, hlast, hshown⟩, hmost⟩ := hgreatest
    refine ⟨t, rfl, hfirst, hlast, hshown, fun u hlt hu hagain => ?_⟩
    have hle := hmost _ ⟨u, rfl, hfirst.trans hlt.le, hu, hagain⟩
    exact absurd (Int.le_of_mul_le_mul_right hle (by decide)) (not_le.mpr hlt)
  · rintro ⟨t, rfl, hfirst, hlast, hshown, hnone⟩
    cases hlater : laterOf resolve offsets (first * minuteMs) (last * minuteMs) (m * minuteMs) with
    | none =>
      rw [hlater] at hgreatest
      exact absurd ⟨t, rfl, hfirst, hlast, hshown⟩ (hgreatest (t * minuteMs))
    | some found =>
      rw [hlater] at hgreatest
      obtain ⟨⟨u, rfl, -, hu, hagain⟩, hmost⟩ := hgreatest
      have hle := hmost _ ⟨t, rfl, hfirst, hlast, hshown⟩
      have hle' : t ≤ u := Int.le_of_mul_le_mul_right hle (by decide)
      rcases Int.lt_or_eq_of_le hle' with hlt | rfl
      · exact absurd hagain (hnone u hlt hu)
      · rfl

def ParsedCron.OfDay (parsed : ParsedCron) : Prop :=
  (∀ hour ∈ parsed.hour, hour < 24) ∧ ∀ minute ∈ parsed.minute, minute < 60

theorem dayMatch_least (hday : parsed.OfDay) (hdate : firstDate ≤ date)
    (hmatches : DateMatches parsed date) (hagrees : Agrees offset resolve first last)
    {offsets : List Int} (hwhole : ∀ o ∈ offsets, ∃ k, o = k * minuteMs)
    (hcover : ∀ t, first ≤ t → t ≤ last → dateOf (clock offset t) = date →
      offset t * minuteMs ∈ offsets) :
    Least (fun x => ∃ m t, dateOf m = date ∧ Matches parsed m ∧ x = t * minuteMs ∧
      LastShown offset first last m t)
      (dayMatch parsed resolve offsets (first * minuteMs) (last * minuteMs)
        (utcWall (date * dayMs))) := by
  have hturn : ∀ hour ∈ parsed.hour, ∀ minute ∈ parsed.minute, ∀ x,
      laterOf resolve offsets (first * minuteMs) (last * minuteMs)
        (wallTime { utcWall (date * dayMs) with hour := hour, minute := minute }) = some x ↔
      ∃ t, x = t * minuteMs ∧ LastShown offset first last (date * 1440 + hour * 60 + minute) t := by
    intro hour hhour minute hminute x
    rw [wallTime_date hdate]
    refine laterOf_eq_some_iff hagrees hwhole fun t hfirst hlast hshown => ?_
    refine hcover t hfirst hlast ?_
    have := hday.1 hour hhour
    have := hday.2 minute hminute
    rw [hshown, dateOf]
    omega
  have hleast : Least (fun x => False ∨ ∃ hour ∈ parsed.hour.mergeSort (· ≤ ·),
      ∃ minute ∈ parsed.minute.mergeSort (· ≤ ·), ∃ t, x = t * minuteMs ∧
        LastShown offset first last (date * 1440 + hour * 60 + minute) t)
      (dayMatch parsed resolve offsets (first * minuteMs) (last * minuteMs)
        (utcWall (date * dayMs))) := by
    refine Least.foldl (fun S best hour hhour h => ?_) fun x hx => hx
    refine Least.foldl (fun S best minute hminute h => ?_) h
    have hiff := hturn hour (List.mem_mergeSort.mp hhour) minute (List.mem_mergeSort.mp hminute)
    split
    case h_1 later hlater =>
      refine (h.earlier later).congr fun x => or_congr_right ?_
      rw [← hiff x, hlater, Option.some.injEq, eq_comm]
    case h_2 hnone =>
      refine h.congr fun x => (or_iff_left fun hx => ?_).symm
      rw [← hiff x, hnone] at hx
      cases hx
  refine hleast.congr fun x => ?_
  simp only [false_or, List.mem_mergeSort]
  constructor
  · rintro ⟨hour, hhour, minute, hminute, t, rfl, hshown⟩
    have hlt := hday.1 hour hhour
    have hlt' := hday.2 minute hminute
    refine ⟨_, t, ?_, (matches_iff hdate hlt hlt').mpr ⟨hmatches, hhour, hminute⟩, rfl, hshown⟩
    rw [dateOf]
    omega
  · rintro ⟨m, t, hm, hmatch, rfl, hshown⟩
    obtain ⟨hour, minute, hhour, hminute, heq⟩ := minute_eq m
    rw [hm] at heq
    rw [heq] at hmatch hshown
    obtain ⟨-, hin, hin'⟩ := (matches_iff hdate hhour hminute).mp hmatch
    exact ⟨hour, hin, minute, hin', t, rfl, hshown⟩

end Stynx.Cron
