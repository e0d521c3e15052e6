import Stynx.NotificationDispatchRuns

/-!
# What a run that ends early leaves behind

A claimed delivery stays attended over every step but the early end of a run, which abandons exactly
what the run holds and has not handed over: its rows stay marked as sent.
-/

namespace Stynx.NotificationDispatch

open CallTables TransitionRuns OrderedMap

variable {options : Options} {s t : State}

def AllAttended (s : State) : Prop := ∀ run ∈ s.runs, ∀ d ∈ run.claimed, Attended s d

variable {index : Nat} {next : Run} {d : ClaimedDelivery}

theorem Goes.attended_before {run : Run} (h : Inv options s)
    (hgoes : Goes options s t index run next) {other : Run} (hother : other ∈ s.runs)
    (hd : d ∈ other.claimed) (hattended : Attended t d) : Attended s d := by
  have hmem : run ∈ s.runs := List.mem_of_getElem? hgoes.stands
  rcases hattended with hhanded | ⟨row, hrow, hstatus⟩ | ⟨holder, hholder, hheld⟩
  · rcases hgoes.handed with hsame | ⟨own, hown, -, hadded⟩
    · exact .inl (hsame ▸ hhanded)
    · rw [hadded] at hhanded
      rcases mem_concat_iff.mp hhanded with hold | hnew
      · exact .inl hold
      · have heq : d.claim = own.claim := hnew
        exact .inr (.inr ⟨run, hmem, heq ▸ List.mem_map_of_mem hown⟩)
  · rcases hgoes.deliveries with hsame | ⟨own, old, new, hown, -, hold, hset, hattempts, -⟩
    · exact .inr (.inl ⟨row, hsame ▸ hrow, hstatus⟩)
    · by_cases hid : own.id = d.id
      · -- the row belongs to this claim, or to a later one
        obtain ⟨known, hknown, hle⟩ := h.known other hother d hd
        obtain ⟨sent, hsent, -, -, hcount⟩ := (h.fits index run hgoes.stands).rows own hown
        rw [hid] at hsent hold
        have hrows : sent = known := Option.some.inj (hsent.symm.trans hknown)
        have holds : old = known := Option.some.inj (hold.symm.trans hknown)
        rcases Nat.lt_or_eq_of_le hle with hlater | hsame
        · exact .inr (.inl ⟨known, hknown, .inr (.inr hlater)⟩)
        · have hattempt : own.attemptCount + 1 = d.attemptCount + 1 := by
            rw [hsame, ← hcount, hrows]
          have hclaim : own.claim = d.claim := by
            rw [ClaimedDelivery.claim, ClaimedDelivery.claim, hid, hattempt]
          exact .inr (.inr ⟨run, hmem, hclaim ▸ List.mem_map_of_mem hown⟩)
      · rw [hset, get?_set_of_ne _ _ hid] at hrow
        exact .inr (.inl ⟨row, hrow, hstatus⟩)
  · rw [hgoes.runs] at hholder
    rcases List.mem_or_eq_of_mem_set hholder with hold | rfl
    · exact .inr (.inr ⟨holder, hold, hheld⟩)
    · exact .inr (.inr ⟨run, hmem, (hgoes.held.map ClaimedDelivery.claim).subset hheld⟩)

theorem Goes.attended_after {run : Run} (h : Inv options s)
    (hgoes : Goes options s t index run next) (hsettles : Settles t run next)
    (hattended : Attended s d) : Attended t d := by
  rcases hattended with hhanded | ⟨row, hrow, hstatus⟩ | ⟨holder, hholder, hheld⟩
  · rcases hgoes.handed with hsame | ⟨own, -, -, hadded⟩
    · exact .inl (hsame ▸ hhanded)
    · exact .inl (hadded ▸ List.mem_append_left _ hhanded)
  · rcases hgoes.deliveries with hsame | ⟨own, old, new, hown, -, hold, hset, hattempts, -⟩
    · exact .inr (.inl ⟨row, hsame ▸ hrow, hstatus⟩)
    · by_cases hid : own.id = d.id
      · -- a row that is held is marked as sent
        obtain ⟨sent, hsent, hmarked, -, -⟩ := (h.fits index run hgoes.stands).rows own hown
        rw [hid] at hsent hold
        have hrows : sent = row := Option.some.inj (hsent.symm.trans hrow)
        have holds : old = row := Option.some.inj (hold.symm.trans hrow)
        have hlater : d.attemptCount + 1 < row.attemptCount := by
          rcases hstatus with hterminal | hqueued | hlater
          · rw [← hrows, hmarked] at hterminal
            cases hterminal
          · rw [← hrows, hmarked] at hqueued
            cases hqueued
          · exact hlater
        refine .inr (.inl ⟨new, ?_, .inr (.inr ?_)⟩)
        · rw [hset, hid, get?_set_self]
        · rw [hattempts, holds]
          exact hlater
      · refine .inr (.inl ⟨row, ?_, hstatus⟩)
        rw [hset, get?_set_of_ne _ _ hid, hrow]
  · obtain ⟨i, hi⟩ := List.getElem?_of_mem hholder
    by_cases hindex : i = index
    · rw [hindex, hgoes.stands] at hi
      have hsame : run = holder := Option.some.inj hi
      obtain ⟨own, hown, hclaim⟩ := List.mem_map.mp hheld
      have hid : own.id = d.id := congrArg Claim.id hclaim
      rcases hsettles own (hsame ▸ hown) with hkept | hhanded | ⟨row, hrow, hstatus⟩
      · have hnext : next ∈ t.runs := by
          rw [hgoes.runs]
          exact List.mem_set (List.getElem?_eq_some_iff.mp hgoes.stands).1 _
        exact .inr (.inr ⟨next, hnext, hclaim ▸ List.mem_map_of_mem hkept⟩)
      · exact .inl (hclaim ▸ hhanded)
      · refine .inr (.inl ⟨row, hid ▸ hrow, ?_⟩)
        exact hstatus.imp_right .inl
    · refine .inr (.inr ⟨holder, ?_, hheld⟩)
      rw [hgoes.runs]
      refine List.mem_of_getElem? (i := i) ?_
      rw [List.getElem?_set_ne (Ne.symm hindex), hi]

theorem Goes.mem_claimed {run : Run} (hgoes : Goes options s t index run next) :
    (∃ other ∈ t.runs, d ∈ other.claimed) ↔ ∃ other ∈ s.runs, d ∈ other.claimed := by
  obtain ⟨hlt, hget⟩ := List.getElem?_eq_some_iff.mp hgoes.stands
  rw [hgoes.runs]
  constructor
  · rintro ⟨other, hother, hd⟩
    rcases List.mem_or_eq_of_mem_set hother with hold | rfl
    · exact ⟨other, hold, hd⟩
    · exact ⟨run, List.mem_of_getElem? hgoes.stands, hgoes.claimed ▸ hd⟩
  · rintro ⟨other, hother, hd⟩
    obtain ⟨i, hi⟩ := List.getElem?_of_mem hother
    by_cases hindex : i = index
    · rw [hindex, hgoes.stands] at hi
      have hsame : run = other := Option.some.inj hi
      exact ⟨next, List.mem_set hlt _, by rw [hgoes.claimed, hsame]; exact hd⟩
    · refine ⟨other, List.mem_of_getElem? (i := i) ?_, hd⟩
      rw [List.getElem?_set_ne (Ne.symm hindex), hi]

theorem Goes.allAttended_iff {run : Run} (h : Inv options s)
    (hgoes : Goes options s t index run next) (hsettles : Settles t run next) :
    AllAttended t ↔ AllAttended s := by
  constructor
  · intro hall other hother d hd
    obtain ⟨later, hlater, hclaimed⟩ := hgoes.mem_claimed.mpr ⟨other, hother, hd⟩
    exact hgoes.attended_before h hother hd (hall later hlater d hclaimed)
  · intro hall other hother d hd
    obtain ⟨former, hformer, hclaimed⟩ := hgoes.mem_claimed.mp ⟨other, hother, hd⟩
    exact hgoes.attended_after h hsettles (hall former hformer d hclaimed)

theorem Goes.allAttended_iff_of_ends {run : Run} (h : Inv options s)
    (hgoes : Goes options s t index run next) (hnone : next.held = [])
    (hdeliveries : t.deliveries = s.deliveries) (hhanded : t.handed = s.handed) :
    AllAttended t ↔ AllAttended s ∧ AllHanded s index := by
  have hfits := h.fits index run hgoes.stands
  constructor
  · intro hall
    refine ⟨fun other hother d hd => ?_, fun same hsame d hd => ?_⟩
    · obtain ⟨later, hlater, hclaimed⟩ := hgoes.mem_claimed.mpr ⟨other, hother, hd⟩
      exact hgoes.attended_before h hother hd (hall later hlater d hclaimed)
    · rw [hgoes.stands] at hsame
      cases hsame
      obtain ⟨later, hlater, hclaimed⟩ := hgoes.mem_claimed.mpr
        ⟨run, List.mem_of_getElem? hgoes.stands, hfits.claimed d hd⟩
      rcases hall later hlater d hclaimed with hdone | ⟨row, hrow, hstatus⟩ | ⟨holder, hholder, hheld⟩
      · exact hhanded ▸ hdone
      · -- the row is marked as sent for this claim
        obtain ⟨sent, hsent, hmarked, -, hcount⟩ := hfits.rows d hd
        rw [hdeliveries, hsent] at hrow
        cases hrow
        rw [hmarked] at hstatus
        rcases hstatus with hterminal | hqueued | hlater
        · cases hterminal
        · cases hqueued
        · omega
      · -- no other run holds it
        obtain ⟨own, hown, hclaim⟩ := List.mem_map.mp hheld
        obtain ⟨i, hi⟩ := List.getElem?_of_mem hholder
        rw [hgoes.runs] at hi
        rcases getElem?_set_cases hi with ⟨-, rfl⟩ | ⟨hne, hold⟩
        · rw [hnone] at hown
          cases hown
        · have hid : own.id = d.id := congrArg Claim.id hclaim
          exact absurd (hid ▸ List.mem_map_of_mem hd) (h.free hgoes.stands hold hne hown)
  · rintro ⟨hall, hgiven⟩
    have hsettles : Settles t run next := fun d hd =>
      .inr (.inl (hhanded ▸ hgiven run hgoes.stands d hd))
    exact (hgoes.allAttended_iff h hsettles).mpr hall

theorem allAttended_claimDue_iff (h : Inv options s) (tenantId : String) (asOf : Int)
    (batchSize : Option Int) (locked : List String) (now : Int) :
    AllAttended (claimDue s tenantId asOf batchSize locked now) ↔ AllAttended s := by
  constructor
  · intro hall run hrun d hd
    obtain ⟨row, hrow, hle⟩ := h.known run hrun d hd
    have hlater : run ∈ (claimDue s tenantId asOf batchSize locked now).runs := by
      rw [claimDue_runs]
      exact List.mem_append_left _ hrun
    rcases hall run hlater d hd with hhanded | ⟨row', hrow', hstatus⟩ | ⟨holder, hholder, hheld⟩
    · exact .inl hhanded
    · rcases get?_claimDue s now hrow with ⟨hkept, -⟩ | ⟨-, hqueued, -⟩
      · rw [hkept] at hrow'
        cases hrow'
        exact .inr (.inl ⟨row, hrow, hstatus⟩)
      · exact .inr (.inl ⟨row, hrow, .inr (.inl hqueued)⟩)
    · rw [claimDue_runs] at hholder
      rcases mem_concat_iff.mp hholder with hold | rfl
      · exact .inr (.inr ⟨holder, hold, hheld⟩)
      · obtain ⟨own, hown, hclaim⟩ := List.mem_map.mp hheld
        exact absurd (mem_claims.mpr ⟨run, hrun, d, hd, hclaim.symm⟩) (h.claim_fresh hown)
  · intro hall run hrun d hd
    rw [claimDue_runs] at hrun
    rcases List.mem_append.mp hrun with hold | hnew
    · rcases hall run hold d hd with hhanded | ⟨row, hrow, hstatus⟩ | ⟨holder, hholder, hheld⟩
      · exact .inl hhanded
      · obtain ⟨same, hsame, hle⟩ := h.known run hold d hd
        rw [hrow] at hsame
        cases hsame
        rcases get?_claimDue s now hrow with ⟨hkept, -⟩ | ⟨hclaimed, -, -⟩
        · exact .inr (.inl ⟨row, hkept, hstatus⟩)
        · exact .inr (.inl ⟨row.claim now, hclaimed, .inr (.inr (Nat.lt_succ_of_le hle))⟩)
      · refine .inr (.inr ⟨holder, ?_, hheld⟩)
        rw [claimDue_runs]
        exact List.mem_append_left _ hholder
    · -- the new run holds what it has claimed
      refine .inr (.inr ⟨run, ?_, ?_⟩)
      · rw [claimDue_runs]
        exact List.mem_append_right _ hnew
      · rw [List.mem_singleton.mp hnew] at hd ⊢
        exact List.mem_map_of_mem hd

theorem allAttended_enqueue_iff (h : Inv options s) {id : String}
    (hnew : s.deliveries.get? id = none) (row : Delivery) :
    AllAttended { s with deliveries := s.deliveries.set id row } ↔ AllAttended s := by
  refine forall₄_congr fun run hrun d hd => ?_
  have hne : id ≠ d.id := by
    rintro rfl
    obtain ⟨found, hfound, -⟩ := h.known run hrun d hd
    rw [hnew] at hfound
    cases hfound
  unfold Attended
  rw [get?_set_of_ne _ _ hne]

instance decidableAllHanded (s : State) (index : Nat) : Decidable (AllHanded s index) :=
  match h : s.runs[index]? with
  | none => isTrue fun run hrun => by rw [h] at hrun; cases hrun
  | some run => decidable_of_iff (∀ d ∈ run.held, d.claim ∈ s.handed) <| by
      refine ⟨fun hall other hother => ?_, fun hall => hall run h⟩
      rw [h] at hother
      cases hother
      exact hall

instance decidableWhole (options : Options) (s : State) (label : Label) :
    Decidable (Whole options s label) :=
  match h : early options s label with
  | none => isTrue fun index hindex => by rw [h] at hindex; cases hindex
  | some index => decidable_of_iff (AllHanded s index) <| by
      refine ⟨fun hall other hother => ?_, fun hall => hall index h⟩
      rw [h] at hother
      cases hother
      exact hall

theorem allAttended_step_iff (h : Inv options s) {label : Label}
    (hstep : step options s label = some t) :
    AllAttended t ↔ AllAttended s ∧ Whole options s label := by
  have hwhole : early options s label = none → Whole options s label := by
    intro hearly index hends
    rw [hearly] at hends
    cases hends
  cases does_of_step h hstep with
  | enqueues id tenantId channel suppressed now hnew heq hearly =>
    rw [heq, allAttended_enqueue_iff h hnew, and_iff_left (hwhole hearly)]
  | claims tenantId asOf batchSize locked now heq hearly =>
    rw [heq, allAttended_claimDue_iff h, and_iff_left (hwhole hearly)]
  | goes index run next hgoes hsettles hearly =>
    rw [hgoes.allAttended_iff h hsettles, and_iff_left (hwhole hearly)]
  | ends index run next hgoes hnone hdeliveries hhanded hearly =>
    rw [hgoes.allAttended_iff_of_ends h hnone hdeliveries hhanded]
    refine and_congr_right fun _ => ⟨fun hall other hother => ?_, fun hends => hends index hearly⟩
    rw [hearly] at hother
    cases hother
    exact hall

theorem Inv.handed_le (h : Inv options s) {id : String} {row : Delivery}
    (hrow : s.deliveries.get? id = some row) :
    (s.handed.filter fun c => c.id = id).length ≤ row.attemptCount := by
  have hid : ∀ c ∈ s.handed.filter fun c => c.id = id, c.id = id := fun c hc =>
    of_decide_eq_true (List.mem_filter.mp hc).2
  have hnodup : ((s.handed.filter fun c => c.id = id).map Claim.attempt).Nodup := by
    refine List.Nodup.map_on (fun c hc c' hc' heq => ?_) (h.nodup.filter _)
    cases c
    cases c'
    rw [Claim.mk.injEq]
    exact ⟨(hid _ hc).trans (hid _ hc').symm, heq⟩
  have hsub : (s.handed.filter fun c => c.id = id).map Claim.attempt ⊆
      List.range' 1 row.attemptCount := by
    intro attempt hattempt
    obtain ⟨c, hc, rfl⟩ := List.mem_map.mp hattempt
    obtain ⟨run, hrun, d, hd, rfl⟩ := mem_claims.mp (h.handed c (List.mem_filter.mp hc).1)
    obtain ⟨found, hfound, hle⟩ := h.known run hrun d hd
    have hown : d.id = id := hid _ hc
    rw [hown, hrow] at hfound
    cases hfound
    refine List.mem_range'_1.mpr ⟨Nat.le_add_left 1 _, ?_⟩
    have : d.claim.attempt = d.attemptCount + 1 := rfl
    omega
  have hlength := (List.subperm_of_subset hnodup hsub).length_le
  rwa [List.length_map, List.length_range'] at hlength

theorem Inv.law_iff (h : Inv options s) : Law options s ↔ AllAttended s := by
  refine ⟨fun hlaw => hlaw.attended, fun hall => ⟨h.unique, ⟨h.nodup, h.handed⟩, ?_, hall⟩⟩
  intro id row hrow
  have hcount := h.handed_le hrow
  have hceiling := (h.rows id row hrow).1
  omega

/-- The law holds exactly when each run that ends early has handed over all that it holds. -/
theorem law_iff_whole (options : Options) (labels : List Label) (s : State)
    (hrun : run (step options) {} labels = some s) :
    Law options s ↔ RunMeets (step options) (Whole options) {} labels := by
  have hnone : AllAttended {} := fun run hrun => by cases hrun
  rw [(run_invariant (fun s a t h hstep => h.step hstep) inv_initial hrun).law_iff,
    run_iff_meets (fun s a t h hstep => Inv.step h hstep)
      (fun s a t h hstep => allAttended_step_iff h hstep) inv_initial hrun]
  exact and_iff_right hnone

/-- Every channel has an adapter and the default policy. -/
def defaults : Options := ⟨fun _ => none, fun _ => true⟩

/-- A delivery fails, waits and is delivered; the run that has sent it ends early. -/
def attendedRun : List Label :=
  [.enqueue "a" "t" .email false 0, .claim "t" 0 none [] 0, .send 0 none, .answer 0 (.error "Error"),
    .persist 0 true 0 0, .send 0 none, .claim "t" 60000 none [] 60000, .send 1 none, .stop 1]

theorem law_iff_whole_attendedRun :
    ∃ s, run (step defaults) {} attendedRun = some s ∧ Law defaults s := by
  have hsome : (run (step defaults) {} attendedRun).isSome = true := by decide +kernel
  obtain ⟨s, hs⟩ := Option.isSome_iff_exists.mp hsome
  exact ⟨s, hs, (law_iff_whole defaults attendedRun s hs).mpr (by decide +kernel)⟩

/-- Two deliveries are claimed, and the outcome of the first one cannot be written. -/
def abandoningRun : List Label :=
  [.enqueue "a" "t" .email false 0, .enqueue "b" "t" .email false 0, .claim "t" 0 none [] 0,
    .send 0 none, .answer 0 (.ok { status := .delivered }), .persist 0 false 0 0]

/-- The second delivery is left as sent, and no adapter has been given it. -/
theorem law_fails :
    ¬ ∀ (options : Options) (labels : List Label) (s : State),
      run (step options) {} labels = some s → Law options s := by
  intro hlaw
  have hend : ∃ s, run (step defaults) {} abandoningRun = some s ∧
      s.handed = [⟨"a", 1⟩] ∧ (s.deliveries.get? "b").map Delivery.status = some .sent ∧
      (s.deliveries.get? "b").map Delivery.attemptCount = some 1 ∧
      s.runs.map Run.claimed = [[⟨"a", .email, 0⟩, ⟨"b", .email, 0⟩]] ∧
      s.runs.map Run.held = [[]] := by
    have hsome : ((run (step defaults) {} abandoningRun).any fun s =>
        s.handed = [⟨"a", 1⟩] ∧ (s.deliveries.get? "b").map Delivery.status = some .sent ∧
        (s.deliveries.get? "b").map Delivery.attemptCount = some 1 ∧
        s.runs.map Run.claimed = [[⟨"a", .email, 0⟩, ⟨"b", .email, 0⟩]] ∧
        s.runs.map Run.held = [[]]) = true := by decide
    obtain ⟨s, hs, hfacts⟩ := (Option.any_eq_true _ _).mp hsome
    exact ⟨s, hs, of_decide_eq_true hfacts⟩
  obtain ⟨s, hs, hhanded, hstatus, hcount, hclaimed, hheld⟩ := hend
  obtain ⟨run, hrun, hruns⟩ := List.mem_map.mp
    (show [⟨"a", .email, 0⟩, ⟨"b", .email, 0⟩] ∈ s.runs.map Run.claimed from hclaimed ▸ (.head _))
  have hattended := (hlaw defaults abandoningRun s hs).attended run hrun ⟨"b", .email, 0⟩
    (hruns ▸ .tail _ (.head _))
  rcases hattended with hdone | ⟨row, hrow, hrest⟩ | ⟨holder, hholder, hmem⟩
  · rw [hhanded] at hdone
    exact absurd hdone (by decide)
  · rw [hrow] at hstatus hcount
    have hmarked : row.status = .sent := Option.some.inj hstatus
    have hone : row.attemptCount = 1 := Option.some.inj hcount
    rw [hmarked, hone] at hrest
    exact absurd hrest (by decide)
  · have hnone : holder.held ∈ s.runs.map Run.held := List.mem_map_of_mem hholder
    rw [hheld, List.mem_singleton] at hnone
    rw [hnone] at hmem
    cases hmem

end Stynx.NotificationDispatch
