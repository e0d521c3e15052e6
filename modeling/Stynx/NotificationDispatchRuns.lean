import Stynx.CallTables
import Stynx.NotificationDispatch
import Stynx.TransitionRuns

/-!
# Claims are handed over once

The number of an attempt makes a claim unique, and a run holds what it has claimed until it has
recorded an outcome.
-/

namespace Stynx.NotificationDispatch

open CallTables TransitionRuns OrderedMap

variable {options : Options} {s t : State}

/-- The deliveries of a run that wait for their turn. -/
def Run.waiting (run : Run) : List ClaimedDelivery :=
  match run.phase with
  | .next rest => rest
  | .sending _ rest => rest
  | .persisting _ _ rest => rest
  | _ => []

/-- The deliveries for which a run has recorded no outcome yet. -/
def Run.held (run : Run) : List ClaimedDelivery :=
  match run.phase with
  | .next rest => rest
  | .sending d rest => d :: rest
  | .persisting d _ rest => d :: rest
  | _ => []

def State.claims (s : State) : List Claim :=
  s.runs.flatMap fun run => run.claimed.map ClaimedDelivery.claim

/-- A claimed delivery was handed over, has an outcome, can be claimed again or has been, or is
still held. -/
def Attended (s : State) (d : ClaimedDelivery) : Prop :=
  d.claim ∈ s.handed ∨
    (∃ row, s.deliveries.get? d.id = some row ∧ (row.status.isTerminal = true ∨
      row.status = .queued ∨ d.attemptCount + 1 < row.attemptCount)) ∨
    ∃ run ∈ s.runs, d.claim ∈ run.held.map ClaimedDelivery.claim

def ceiling (options : Options) (channel : Channel) : Int :=
  max (options.policy channel).maxAttempts 1

structure Law (options : Options) (s : State) : Prop where
  /-- Each claim belongs to one run. -/
  claims : s.claims.Nodup
  /-- Only claims are handed over, and each one once. -/
  handed : s.handed.Nodup ∧ ∀ c ∈ s.handed, c ∈ s.claims
  /-- A delivery is handed over as often as its channel allows. -/
  ceiling : ∀ id row, s.deliveries.get? id = some row →
    ((s.handed.filter fun c => c.id = id).length : Int) ≤ ceiling options row.channel
  /-- No claimed delivery is left as sent that has never been. -/
  attended : ∀ run ∈ s.runs, ∀ d ∈ run.claimed, Attended s d

def AllHanded (s : State) (index : Nat) : Prop :=
  ∀ run, s.runs[index]? = some run → ∀ d ∈ run.held, d.claim ∈ s.handed

def throws (options : Options) (s : State) (index : Nat) (succeeds : Bool) (now : Int) (random : ℚ) :
    Bool :=
  (s.runs[index]?).any fun run =>
    match run.phase with
    | .persisting d result _ =>
      !succeeds || (persistOutcome options s.deliveries d result now random).isNone
    | _ => false

/-- The run that a step ends early. -/
def early (options : Options) (s : State) : Label → Option Nat
  | .stop index => some index
  | .persist index succeeds now random =>
    if throws options s index succeeds now random then some index else none
  | _ => none

/-- A step that ends a run early finds that the run has handed over all that it holds. -/
def Whole (options : Options) (s : State) (label : Label) : Prop :=
  ∀ index, early options s label = some index → AllHanded s index

def Holds (s : State) (d : ClaimedDelivery) : Prop :=
  ∃ row, s.deliveries.get? d.id = some row ∧ row.status = .sent ∧ row.channel = d.channel ∧
    row.attemptCount = d.attemptCount + 1

structure Fits (s : State) (run : Run) : Prop where
  /-- What it holds is marked as sent, for its claim. -/
  rows : ∀ d ∈ run.held, Holds s d
  claimed : ∀ d ∈ run.held, d ∈ run.claimed
  waiting : ∀ d ∈ run.waiting, d.claim ∉ s.handed
  /-- A result without an adapter is a failure. -/
  failed : ∀ d result rest, run.phase = .persisting d result rest → d.claim ∉ s.handed →
    result.status = .failed
  /-- What an adapter has been given was handed over. -/
  sending : ∀ d rest, run.phase = .sending d rest → d.claim ∈ s.handed

structure Inv (options : Options) (s : State) : Prop where
  fits : ∀ (i : Nat) run, s.runs[i]? = some run → Fits s run
  apart : Exclusive (fun run => run.held.map ClaimedDelivery.id) s.runs
  /-- A claimed row has at least the attempt of the claim. -/
  known : ∀ run ∈ s.runs, ∀ d ∈ run.claimed, ∃ row, s.deliveries.get? d.id = some row ∧
    d.attemptCount + 1 ≤ row.attemptCount
  /-- Rows keep to the ceiling, and those that are queued below it. -/
  rows : ∀ id row, s.deliveries.get? id = some row →
    (row.attemptCount : Int) ≤ ceiling options row.channel ∧
      (row.status = .queued → (row.attemptCount : Int) < ceiling options row.channel)
  /-- Only claims are handed over. -/
  handed : ∀ c ∈ s.handed, c ∈ s.claims
  /-- Each claim is handed over once. -/
  nodup : s.handed.Nodup
  unique : s.claims.Nodup

theorem inv_initial : Inv options {} where
  fits i run hrun := by cases hrun
  apart := .nil
  known run hrun := by cases hrun
  rows id row hrow := by cases hrow
  handed c hc := by cases hc
  nodup := List.nodup_nil
  unique := List.nodup_nil

theorem mem_claims {c : Claim} : c ∈ s.claims ↔ ∃ run ∈ s.runs, ∃ d ∈ run.claimed, d.claim = c := by
  rw [State.claims, List.mem_flatMap]
  exact exists_congr fun run => and_congr_right fun _ => List.mem_map

variable {run next : Run} {d : ClaimedDelivery} {index : Nat} {id : String}

theorem mem_held_of_waiting (h : d ∈ run.waiting) : d ∈ run.held := by
  unfold Run.waiting at h
  unfold Run.held
  split at h
  all_goals simp_all

/-- A run may hand over one delivery, or record the outcome of one. -/
structure Goes (options : Options) (s t : State) (index : Nat) (run next : Run) : Prop where
  stands : s.runs[index]? = some run
  runs : t.runs = s.runs.set index next
  claimed : next.claimed = run.claimed
  /-- It holds no more than before. -/
  held : next.held.Sublist run.held
  /-- At most one row is written. -/
  deliveries : t.deliveries = s.deliveries ∨ ∃ d row row', d ∈ run.held ∧
    d.id ∉ next.held.map ClaimedDelivery.id ∧ s.deliveries.get? d.id = some row ∧
    t.deliveries = s.deliveries.set d.id row' ∧ row'.attemptCount = row.attemptCount ∧
    row'.channel = row.channel ∧
    (row'.status = .queued → (row.attemptCount : Int) < ceiling options row.channel)
  /-- At most one delivery is handed over. -/
  handed : t.handed = s.handed ∨
    ∃ d ∈ run.held, d.claim ∉ s.handed ∧ t.handed = s.handed ++ [d.claim]
  fits : Fits t next

theorem Goes.claims (h : Goes options s t index run next) : t.claims = s.claims := by
  have hmap : t.runs.map (fun run => run.claimed.map ClaimedDelivery.claim) =
      s.runs.map fun run => run.claimed.map ClaimedDelivery.claim := by
    rw [h.runs]
    exact map_set_of_eq h.stands (congrArg (List.map ClaimedDelivery.claim) h.claimed)
  rw [State.claims, State.claims, List.flatMap_def, List.flatMap_def, hmap]

theorem Goes.get?_of_free (h : Goes options s t index run next)
    (hfree : id ∉ run.held.map ClaimedDelivery.id) :
    t.deliveries.get? id = s.deliveries.get? id := by
  rcases h.deliveries with hsame | ⟨d, row, row', hd, -, -, hset, -⟩
  · rw [hsame]
  · rw [hset]
    refine get?_set_of_ne _ _ fun heq => hfree ?_
    exact heq ▸ List.mem_map_of_mem hd

theorem Goes.get? (h : Goes options s t index run next) {row : Delivery}
    (hrow : s.deliveries.get? id = some row) :
    ∃ row', t.deliveries.get? id = some row' ∧ row'.attemptCount = row.attemptCount := by
  rcases h.deliveries with hsame | ⟨d, old, new, -, -, hold, hset, hattempts, -⟩
  · exact ⟨row, by rw [hsame, hrow], rfl⟩
  · by_cases hid : d.id = id
    · rw [hid, hrow] at hold
      cases hold
      exact ⟨new, by rw [hset, hid, get?_set_self], hattempts⟩
    · exact ⟨row, by rw [hset, get?_set_of_ne _ _ hid, hrow], rfl⟩

theorem Inv.free (h : Inv options s) {i : Nat} {other : Run} (hrun : s.runs[index]? = some run)
    (hother : s.runs[i]? = some other) (hne : i ≠ index) (hd : d ∈ other.held) :
    d.id ∉ run.held.map ClaimedDelivery.id :=
  fun hmem => hne (h.apart.apart i index other run d.id hother hrun (List.mem_map_of_mem hd) hmem)

theorem Inv.goes (h : Inv options s) (hgoes : Goes options s t index run next) : Inv options t where
  fits i other hother := by
    rw [hgoes.runs] at hother
    rcases getElem?_set_cases hother with ⟨-, rfl⟩ | ⟨hne, hold⟩
    · exact hgoes.fits
    · have hfits := h.fits i other hold
      -- what is handed over now is held by the other run
      have hcalls : ∀ d ∈ other.held, (d.claim ∈ t.handed ↔ d.claim ∈ s.handed) := by
        intro d hd
        rcases hgoes.handed with hsame | ⟨own, hown, -, hadded⟩
        · rw [hsame]
        · rw [hadded, List.mem_append, List.mem_singleton]
          refine or_iff_left fun heq => ?_
          have hid : own.id = d.id := congrArg Claim.id heq.symm
          exact h.free hgoes.stands hold hne hd (hid ▸ List.mem_map_of_mem hown)
      refine ⟨fun d hd => ?_, hfits.claimed, fun d hd => ?_, fun d result rest hphase => ?_,
        fun d rest hphase => ?_⟩
      · obtain ⟨row, hrow, hrest⟩ := hfits.rows d hd
        exact ⟨row, by rw [hgoes.get?_of_free (h.free hgoes.stands hold hne hd), hrow], hrest⟩
      · rw [hcalls d (mem_held_of_waiting hd)]
        exact hfits.waiting d hd
      · have hd : d ∈ other.held := by
          rw [Run.held, hphase]
          exact .head _
        rw [hcalls d hd]
        exact hfits.failed d result rest hphase
      · have hd : d ∈ other.held := by
          rw [Run.held, hphase]
          exact .head _
        rw [hcalls d hd]
        exact hfits.sending d rest hphase
  apart := by
    rw [hgoes.runs]
    exact h.apart.shrink hgoes.stands (hgoes.held.map ClaimedDelivery.id)
  known other hother d hd := by
    have hold : ∃ old ∈ s.runs, d ∈ old.claimed := by
      rw [hgoes.runs] at hother
      rcases List.mem_or_eq_of_mem_set hother with hold | rfl
      · exact ⟨other, hold, hd⟩
      · exact ⟨run, List.mem_of_getElem? hgoes.stands, hgoes.claimed ▸ hd⟩
    obtain ⟨old, hmem, hclaimed⟩ := hold
    obtain ⟨row, hrow, hle⟩ := h.known old hmem d hclaimed
    obtain ⟨row', hrow', hattempts⟩ := hgoes.get? hrow
    exact ⟨row', hrow', hattempts.symm ▸ hle⟩
  rows id row hrow := by
    rcases hgoes.deliveries with hsame | ⟨d, old, new, -, -, hold, hset, hattempts, hchannel, hqueued⟩
    · exact h.rows id row (hsame ▸ hrow)
    · rw [hset] at hrow
      rcases get?_set_eq_some.mp hrow with ⟨-, rfl⟩ | ⟨-, hother⟩
      · rw [hattempts, hchannel]
        exact ⟨(h.rows d.id old hold).1, hqueued⟩
      · exact h.rows id row hother
  handed c hc := by
    rw [hgoes.claims]
    rcases hgoes.handed with hsame | ⟨d, hd, -, hadded⟩
    · exact h.handed c (hsame ▸ hc)
    · rw [hadded] at hc
      rcases mem_concat_iff.mp hc with hold | rfl
      · exact h.handed c hold
      · exact mem_claims.mpr ⟨run, List.mem_of_getElem? hgoes.stands, d,
          (h.fits index run hgoes.stands).claimed d hd, rfl⟩
  nodup := by
    rcases hgoes.handed with hsame | ⟨d, -, hfresh, hadded⟩
    · rw [hsame]
      exact h.nodup
    · rw [hadded]
      refine List.nodup_append.mpr ⟨h.nodup, List.nodup_singleton _, ?_⟩
      intro c hc c' hc' heq
      rw [List.mem_singleton.mp hc'] at heq
      exact hfresh (heq ▸ hc)
  unique := hgoes.claims ▸ h.unique

section

variable {ν : Type} (f : ν → ν) {rows : List (String × ν)}

theorem get?_foldl_set_of_not_mem (m : OrderedMap String ν) {k : String}
    (h : k ∉ rows.map Prod.fst) :
    (rows.foldl (fun m p => m.set p.1 (f p.2)) m).get? k = m.get? k := by
  induction rows generalizing m with
  | nil => rfl
  | cons p rest ih =>
    rw [List.map_cons, List.mem_cons, not_or] at h
    rw [List.foldl_cons, ih _ h.2, get?_set_of_ne _ _ (Ne.symm h.1)]

theorem get?_foldl_set_of_mem (m : OrderedMap String ν) (hnodup : (rows.map Prod.fst).Nodup)
    {p : String × ν} (h : p ∈ rows) :
    (rows.foldl (fun m p => m.set p.1 (f p.2)) m).get? p.1 = some (f p.2) := by
  induction rows generalizing m with
  | nil => cases h
  | cons q rest ih =>
    rw [List.map_cons, List.nodup_cons] at hnodup
    rw [List.foldl_cons]
    rcases List.mem_cons.mp h with rfl | hrest
    · rw [get?_foldl_set_of_not_mem f _ hnodup.1, get?_set_self]
    · exact ih _ hnodup.2 hrest

end

variable {tenantId : String} {asOf : Int} {batchSize : Option Int} {locked : List String}

theorem mem_due {deliveries : OrderedMap String Delivery} {p : String × Delivery}
    (h : p ∈ due deliveries tenantId asOf batchSize locked) :
    deliveries.get? p.1 = some p.2 ∧ p.2.status = .queued := by
  have hsorted := List.mem_of_mem_take h
  rw [List.mem_insertionSort, List.mem_filter] at hsorted
  obtain ⟨hentry, hquery⟩ := hsorted
  simp only [Bool.and_eq_true, beq_iff_eq] at hquery
  exact ⟨mem_entries_iff.mp hentry, hquery.1.1.2⟩

theorem due_nodup (deliveries : OrderedMap String Delivery) :
    ((due deliveries tenantId asOf batchSize locked).map Prod.fst).Nodup := by
  have hsub := (List.take_sublist (min (max (batchSize.getD 50) 1) 500).toNat
    ((deliveries.entries.filter fun p => p.2.tenantId == tenantId && p.2.status == .queued &&
      decide (p.2.nextAttemptAt ≤ asOf) && !locked.contains p.1).insertionSort fun p q =>
        p.2.nextAttemptAt < q.2.nextAttemptAt ∨
          p.2.nextAttemptAt = q.2.nextAttemptAt ∧ p.2.createdAt ≤ q.2.createdAt)).map Prod.fst
  refine List.Nodup.sublist hsub ?_
  rw [((List.perm_insertionSort _ _).map Prod.fst).nodup_iff]
  exact deliveries.nodup.sublist (List.filter_sublist.map Prod.fst)

theorem get?_claimDue_of_not_mem (s : State) (now : Int) {id : String}
    (h : id ∉ (due s.deliveries tenantId asOf batchSize locked).map Prod.fst) :
    (claimDue s tenantId asOf batchSize locked now).deliveries.get? id = s.deliveries.get? id :=
  get?_foldl_set_of_not_mem (fun d : Delivery => d.claim now) s.deliveries h

theorem get?_claimDue_of_mem (s : State) (now : Int) {p : String × Delivery}
    (h : p ∈ due s.deliveries tenantId asOf batchSize locked) :
    (claimDue s tenantId asOf batchSize locked now).deliveries.get? p.1 = some (p.2.claim now) :=
  get?_foldl_set_of_mem (fun d : Delivery => d.claim now) s.deliveries (due_nodup _) h

theorem get?_claimDue (s : State) (now : Int) {id : String} {row : Delivery}
    (hrow : s.deliveries.get? id = some row) :
    (claimDue s tenantId asOf batchSize locked now).deliveries.get? id = some row ∧
        id ∉ (due s.deliveries tenantId asOf batchSize locked).map Prod.fst ∨
      (claimDue s tenantId asOf batchSize locked now).deliveries.get? id = some (row.claim now) ∧
        row.status = .queued ∧
        (id, row) ∈ due s.deliveries tenantId asOf batchSize locked := by
  by_cases hmem : id ∈ (due s.deliveries tenantId asOf batchSize locked).map Prod.fst
  · obtain ⟨p, hp, rfl⟩ := List.mem_map.mp hmem
    obtain ⟨hget, hqueued⟩ := mem_due hp
    rw [hrow] at hget
    cases hget
    exact .inr ⟨get?_claimDue_of_mem s now hp, hqueued, hp⟩
  · exact .inl ⟨by rw [get?_claimDue_of_not_mem s now hmem, hrow], hmem⟩

def claimingRun (s : State) (tenantId : String) (asOf : Int) (batchSize : Option Int)
    (locked : List String) : Run where
  claimed := (due s.deliveries tenantId asOf batchSize locked).map toClaimed
  phase := .next ((due s.deliveries tenantId asOf batchSize locked).map toClaimed)

theorem claimDue_runs (s : State) (now : Int) :
    (claimDue s tenantId asOf batchSize locked now).runs =
      s.runs ++ [claimingRun s tenantId asOf batchSize locked] := rfl

theorem mem_claimingRun {d : ClaimedDelivery}
    (h : d ∈ (claimingRun s tenantId asOf batchSize locked).claimed) :
    ∃ p ∈ due s.deliveries tenantId asOf batchSize locked, toClaimed p = d := List.mem_map.mp h

theorem Inv.claim_fresh (h : Inv options s) {d : ClaimedDelivery}
    (hd : d ∈ (claimingRun s tenantId asOf batchSize locked).claimed) : d.claim ∉ s.claims := by
  obtain ⟨p, hp, rfl⟩ := mem_claimingRun hd
  intro hmem
  obtain ⟨run, hrun, d, hd, heq⟩ := mem_claims.mp hmem
  obtain ⟨row, hrow, hle⟩ := h.known run hrun d hd
  have hid : d.id = p.1 := congrArg Claim.id heq
  have hattempt : d.attemptCount + 1 = p.2.attemptCount + 1 := congrArg Claim.attempt heq
  rw [hid, (mem_due hp).1] at hrow
  cases hrow
  omega

theorem claims_claimDue (s : State) (now : Int) :
    (claimDue s tenantId asOf batchSize locked now).claims = s.claims ++
      (claimingRun s tenantId asOf batchSize locked).claimed.map ClaimedDelivery.claim := by
  rw [State.claims, claimDue_runs, List.flatMap_append, List.flatMap_singleton]
  rfl

theorem Inv.claimDue (h : Inv options s) (now : Int) :
    Inv options (claimDue s tenantId asOf batchSize locked now) where
  fits i run hrun := by
    rw [claimDue_runs] at hrun
    rcases getElem?_concat_cases hrun with ⟨-, rfl⟩ | ⟨-, hold⟩
    · refine ⟨fun d hd => ?_, fun d hd => hd, fun d hd hhanded => ?_, fun d result rest hphase => ?_,
        fun d rest hphase => ?_⟩
      · obtain ⟨p, hp, rfl⟩ := mem_claimingRun hd
        exact ⟨p.2.claim now, get?_claimDue_of_mem s now hp, rfl, rfl, rfl⟩
      · exact h.claim_fresh hd (h.handed _ hhanded)
      · cases hphase
      · cases hphase
    · have hfits := h.fits i run hold
      refine ⟨fun d hd => ?_, hfits.claimed, hfits.waiting, hfits.failed, hfits.sending⟩
      obtain ⟨row, hrow, hsent, hrest⟩ := hfits.rows d hd
      rcases get?_claimDue s now hrow with ⟨hkept, -⟩ | ⟨-, hqueued, -⟩
      · exact ⟨row, hkept, hsent, hrest⟩
      · rw [hsent] at hqueued
        cases hqueued
  apart := by
    rw [claimDue_runs]
    refine h.apart.concat_of_free ?_ fun i other id hother hheld hnew => ?_
    · have hids : (claimingRun s tenantId asOf batchSize locked).held.map ClaimedDelivery.id =
          (due s.deliveries tenantId asOf batchSize locked).map Prod.fst := by
        rw [Run.held, claimingRun, List.map_map]
        rfl
      rw [hids]
      exact due_nodup _
    · -- what is held is marked as sent, and what is claimed is queued
      obtain ⟨d, hd, rfl⟩ := List.mem_map.mp hheld
      obtain ⟨d', hd', hid⟩ := List.mem_map.mp hnew
      obtain ⟨p, hp, rfl⟩ := mem_claimingRun hd'
      obtain ⟨row, hrow, hsent, -⟩ := (h.fits i other hother).rows d hd
      obtain ⟨hget, hqueued⟩ := mem_due hp
      rw [← hid] at hrow
      rw [show (toClaimed p).id = p.1 from rfl, hget] at hrow
      cases hrow
      rw [hsent] at hqueued
      cases hqueued
  known run hrun d hd := by
    rw [claimDue_runs] at hrun
    rcases mem_concat_iff.mp hrun with hold | rfl
    · obtain ⟨row, hrow, hle⟩ := h.known run hold d hd
      rcases get?_claimDue s now hrow with ⟨hkept, -⟩ | ⟨hclaimed, -⟩
      · exact ⟨row, hkept, hle⟩
      · exact ⟨row.claim now, hclaimed, Nat.le_succ_of_le hle⟩
    · obtain ⟨p, hp, rfl⟩ := mem_claimingRun hd
      exact ⟨p.2.claim now, get?_claimDue_of_mem s now hp, le_rfl⟩
  rows id row hrow := by
    by_cases hmem : id ∈ (due s.deliveries tenantId asOf batchSize locked).map Prod.fst
    · obtain ⟨p, hp, rfl⟩ := List.mem_map.mp hmem
      rw [get?_claimDue_of_mem s now hp] at hrow
      cases hrow
      obtain ⟨hget, hqueued⟩ := mem_due hp
      have hbelow := (h.rows p.1 p.2 hget).2 hqueued
      refine ⟨?_, fun hfalse => by cases hfalse⟩
      rw [show (p.2.claim now).attemptCount = p.2.attemptCount + 1 from rfl]
      push_cast
      exact hbelow
    · rw [get?_claimDue_of_not_mem s now hmem] at hrow
      exact h.rows id row hrow
  handed c hc := by
    rw [claims_claimDue]
    exact List.mem_append_left _ (h.handed c hc)
  nodup := h.nodup
  unique := by
    rw [claims_claimDue]
    refine List.nodup_append.mpr ⟨h.unique, ?_, fun c hc c' hc' heq => ?_⟩
    · refine List.Nodup.of_map Claim.id ?_
      rw [claimingRun, List.map_map, List.map_map]
      exact due_nodup _
    · obtain ⟨d, hd, rfl⟩ := List.mem_map.mp hc'
      exact h.claim_fresh hd (heq ▸ hc)

theorem Inv.enqueue (h : Inv options s) (hnew : s.deliveries.get? id = none) (tenantId : String)
    (channel : Channel) (suppressed : Bool) (now : Int) :
    Inv options { s with
      deliveries := s.deliveries.set id (enqueued tenantId channel suppressed now) } := by
  have hkept : ∀ other row, s.deliveries.get? other = some row →
      (s.deliveries.set id (enqueued tenantId channel suppressed now)).get? other = some row := by
    intro other row hrow
    rw [get?_set_of_ne _ _ fun heq => ?_, hrow]
    rw [← heq, hnew] at hrow
    cases hrow
  refine ⟨fun i run hrun => ?_, h.apart, fun run hrun d hd => ?_, fun other row hrow => ?_, h.handed,
    h.nodup, h.unique⟩
  · have hfits := h.fits i run hrun
    refine ⟨fun d hd => ?_, hfits.claimed, hfits.waiting, hfits.failed, hfits.sending⟩
    obtain ⟨row, hrow, hrest⟩ := hfits.rows d hd
    exact ⟨row, hkept d.id row hrow, hrest⟩
  · obtain ⟨row, hrow, hle⟩ := h.known run hrun d hd
    exact ⟨row, hkept d.id row hrow, hle⟩
  · rcases get?_set_eq_some.mp hrow with ⟨-, rfl⟩ | ⟨-, hold⟩
    · have hpositive : (0 : Int) < ceiling options channel :=
        lt_of_lt_of_le Int.zero_lt_one (le_max_right _ _)
      exact ⟨hpositive.le, fun _ => hpositive⟩
    · exact h.rows other row hold

theorem goes_put (hrun : s.runs[index]? = some run) (hclaimed : next.claimed = run.claimed)
    (hheld : next.held.Sublist run.held) (hfits : Fits (s.put index next) next) :
    Goes options s (s.put index next) index run next where
  stands := hrun
  runs := rfl
  claimed := hclaimed
  held := hheld
  deliveries := .inl rfl
  handed := .inl rfl
  fits := hfits

theorem goes_end (hrun : s.runs[index]? = some run) {phase : Phase}
    (hphase : phase = .returned ∨ phase = .stopped) :
    Goes options s (s.put index { run with phase := phase }) index run
        { run with phase := phase } ∧ ({ run with phase := phase } : Run).held = [] := by
  rcases hphase with rfl | rfl
  all_goals
    refine ⟨goes_put hrun rfl (List.nil_sublist _) ?_, rfl⟩
    exact ⟨fun d hd => (by cases hd), fun d hd => (by cases hd), fun d hd => (by cases hd),
      fun d result rest hfalse => (by cases hfalse), fun d rest hfalse => (by cases hfalse)⟩

/-- What a run does not hold any more. -/
def Settles (t : State) (run next : Run) : Prop :=
  ∀ d ∈ run.held, d ∈ next.held ∨ d.claim ∈ t.handed ∨
    ∃ row, t.deliveries.get? d.id = some row ∧ (row.status.isTerminal = true ∨ row.status = .queued)

theorem finalStatus_failed (d : ClaimedDelivery) {result : ChannelSendResult}
    (h : result.status = .failed) : finalStatus options d result = .queued ∨
      (finalStatus options d result).isTerminal = true := by
  unfold finalStatus
  rw [h]
  dsimp only
  split
  · exact .inl rfl
  · exact .inr rfl

theorem finalStatus_queued {result : ChannelSendResult} (h : finalStatus options d result = .queued) :
    ((d.attemptCount + 1 : Nat) : Int) < ceiling options d.channel := by
  unfold finalStatus at h
  dsimp only at h
  split at h
  case isTrue hretry =>
    simp only [Bool.and_eq_true, Bool.not_eq_true', decide_eq_false_iff_not] at hretry
    push_cast
    exact not_le.mp hretry.2
  case isFalse => exact absurd h result.notQueued

inductive Does (options : Options) (s t : State) (label : Label) : Prop
  /-- A delivery is inserted. -/
  | enqueues (id tenantId : String) (channel : Channel) (suppressed : Bool) (now : Int) :
    s.deliveries.get? id = none →
    t = { s with deliveries := s.deliveries.set id (enqueued tenantId channel suppressed now) } →
    early options s label = none → Does options s t label
  /-- A run claims what is due. -/
  | claims (tenantId : String) (asOf : Int) (batchSize : Option Int) (locked : List String)
    (now : Int) : t = claimDue s tenantId asOf batchSize locked now →
    early options s label = none → Does options s t label
  /-- A run goes on, and settles what it does not hold any more. -/
  | goes (index : Nat) (run next : Run) : Goes options s t index run next → Settles t run next →
    early options s label = none → Does options s t label
  | ends (index : Nat) (run next : Run) : Goes options s t index run next → next.held = [] →
    t.deliveries = s.deliveries → t.handed = s.handed → early options s label = some index →
    Does options s t label

theorem does_send (h : Inv options s) {exception : Option String}
    (hstep : step options s (.send index exception) = some t) :
    Does options s t (.send index exception) := by
  obtain ⟨run, hrun, hmoved⟩ := Option.bind_eq_some_iff.mp hstep
  have hfits := h.fits index run hrun
  split at hmoved
  case h_1 hphase =>
    cases hmoved
    obtain ⟨hgoes, -⟩ := goes_end hrun (.inl rfl)
    refine .goes index run _ hgoes (fun d hd => ?_) rfl
    rw [Run.held, hphase] at hd
    cases hd
  case h_2 d rest hphase =>
    cases hmoved
    have hheld : run.held = d :: rest := by rw [Run.held, hphase]
    have hwaiting : run.waiting = d :: rest := by rw [Run.waiting, hphase]
    have hd : d ∈ run.held := hheld ▸ (.head _)
    have hfresh : d.claim ∉ s.handed := hfits.waiting d (hwaiting ▸ (.head _))
    have hrest : ∀ d' ∈ rest, d'.claim ∉ s.handed := fun d' hd' =>
      hfits.waiting d' (hwaiting ▸ .tail d hd')
    -- a failure that comes before the adapter
    have hfails : ∀ result : ChannelSendResult, result.status = .failed →
        Does options s (s.put index { run with phase := .persisting d result rest })
          (.send index exception) := by
      intro result hfailed
      refine .goes index run _ (goes_put hrun rfl (hheld ▸ List.Sublist.refl _) ?_)
        (fun d' hd' => .inl (hheld ▸ hd' : d' ∈ d :: rest)) rfl
      refine ⟨fun d' hd' => hfits.rows d' (hheld ▸ hd'), fun d' hd' => hfits.claimed d' (hheld ▸ hd'),
        hrest, fun d' result' rest' hphase' _ => ?_, fun d' rest' hphase' => (by cases hphase')⟩
      cases hphase'
      exact hfailed
    unfold send
    split
    case isFalse => exact hfails adapterUnavailable rfl
    case isTrue =>
      split
      case h_1 name => exact hfails (sendException name) rfl
      case h_2 =>
        refine .goes index run { run with phase := .sending d rest }
          ⟨hrun, rfl, rfl, hheld ▸ List.Sublist.refl _, .inl rfl, .inr ⟨d, hd, hfresh, rfl⟩, ?_⟩
          (fun d' hd' => .inl (hheld ▸ hd' : d' ∈ d :: rest)) rfl
        refine ⟨fun d' hd' => hfits.rows d' (hheld ▸ hd'),
          fun d' hd' => hfits.claimed d' (hheld ▸ hd'), fun d' hd' hhanded => ?_,
          fun d' result rest' hphase' => (by cases hphase'), fun d' rest' hphase' => ?_⟩
        · -- no other delivery of the run has the identifier
          rcases mem_concat_iff.mp hhanded with hold | hnew
          · exact hrest d' hd' hold
          · have hids := h.apart.nodup index run hrun
            rw [hheld, List.map_cons, List.nodup_cons] at hids
            have hid : d'.id = d.id := congrArg Claim.id hnew
            exact hids.1 (hid ▸ List.mem_map_of_mem hd')
        · cases hphase'
          exact List.mem_concat_self
  case h_3 => cases hmoved

theorem does_answer (h : Inv options s) {outcome : Except String ChannelSendResult}
    (hstep : step options s (.answer index outcome) = some t) :
    Does options s t (.answer index outcome) := by
  obtain ⟨run, hrun, hmoved⟩ := Option.bind_eq_some_iff.mp hstep
  have hfits := h.fits index run hrun
  split at hmoved
  case h_2 => cases hmoved
  case h_1 d rest hphase =>
    cases hmoved
    have hheld : run.held = d :: rest := by rw [Run.held, hphase]
    have hwaiting : run.waiting = rest := by rw [Run.waiting, hphase]
    refine .goes index run _ (goes_put hrun rfl (hheld ▸ List.Sublist.refl _) ?_)
      (fun d' hd' => .inl (hheld ▸ hd' : d' ∈ d :: rest)) rfl
    refine ⟨fun d' hd' => hfits.rows d' (hheld ▸ hd'), fun d' hd' => hfits.claimed d' (hheld ▸ hd'),
      fun d' hd' => hfits.waiting d' (hwaiting ▸ hd'), fun d' result rest' hphase' hfresh => ?_,
      fun d' rest' hphase' => (by cases hphase')⟩
    cases hphase'
    exact absurd (hfits.sending d rest hphase) hfresh

theorem does_persist (h : Inv options s) {succeeds : Bool} {now : Int} {random : ℚ}
    (hstep : step options s (.persist index succeeds now random) = some t) :
    Does options s t (.persist index succeeds now random) := by
  obtain ⟨run, hrun, hmoved⟩ := Option.bind_eq_some_iff.mp hstep
  have hfits := h.fits index run hrun
  split at hmoved
  case h_2 => cases hmoved
  case h_1 d result rest hphase =>
    cases hmoved
    have hheld : run.held = d :: rest := by rw [Run.held, hphase]
    have hwaiting : run.waiting = rest := by rw [Run.waiting, hphase]
    have hd : d ∈ run.held := hheld ▸ (.head _)
    have hthrows : throws options s index succeeds now random =
        (!succeeds || (persistOutcome options s.deliveries d result now random).isNone) := by
      rw [throws, hrun, Option.any_some, hphase]
    have hends : throws options s index succeeds now random = true →
        Does options s (s.put index { run with phase := .stopped })
          (.persist index succeeds now random) := by
      intro htrue
      obtain ⟨hgoes, hnone⟩ := goes_end hrun (.inr rfl)
      exact .ends index run _ hgoes hnone rfl rfl (by rw [early, if_pos htrue])
    unfold persist
    cases succeeds with
    | false => exact hends (by rw [hthrows]; rfl)
    | true =>
    cases hpersist : persistOutcome options s.deliveries d result now random with
    | none => exact hends (by rw [hthrows, hpersist]; rfl)
    | some deliveries =>
      have hfalse : throws options s index true now random = false := by
        rw [hthrows, hpersist]
        rfl
      have hearly : early options s (.persist index true now random) = none := by
        rw [early, hfalse]
        rfl
      obtain ⟨row, hrow, hsent, hchannel, hattempts⟩ := hfits.rows d hd
      unfold persistOutcome at hpersist
      rw [hrow] at hpersist
      dsimp only at hpersist
      split at hpersist
      case isFalse => cases hpersist
      case isTrue =>
        cases hpersist
        have hids := h.apart.nodup index run hrun
        rw [hheld, List.map_cons, List.nodup_cons] at hids
        refine .goes index run _ ⟨hrun, rfl, rfl, hheld ▸ List.sublist_cons_self d rest,
          .inr ⟨d, row, _, hd, hids.1, hrow, rfl, rfl, rfl, fun hqueued => ?_⟩, .inl rfl, ?_⟩
          (fun d' hd' => ?_) hearly
        · rw [hattempts, hchannel]
          exact finalStatus_queued hqueued
        · refine ⟨fun d' hd' => ?_, fun d' hd' =>
              hfits.claimed d' (hheld ▸ .tail d hd'),
            fun d' hd' => hfits.waiting d' (hwaiting ▸ hd'),
            fun d' result' rest' hphase' => (by cases hphase'),
            fun d' rest' hphase' => (by cases hphase')⟩
          obtain ⟨row', hrow', hrest'⟩ := hfits.rows d' (hheld ▸ .tail d hd')
          refine ⟨row', ?_, hrest'⟩
          refine (get?_set_of_ne _ _ fun heq => hids.1 ?_).trans hrow'
          exact heq ▸ List.mem_map_of_mem hd'
        · -- the delivery was handed over, or it has failed before
          rw [hheld] at hd'
          rcases List.mem_cons.mp hd' with rfl | hwaits
          · by_cases hhanded : d'.claim ∈ s.handed
            · exact .inr (.inl hhanded)
            · have hfailed := hfits.failed d' result rest hphase hhanded
              refine .inr (.inr ⟨_, get?_set_self _ _ _, ?_⟩)
              exact (finalStatus_failed d' hfailed).symm
          · exact .inl hwaits

theorem does_of_step (h : Inv options s) {label : Label} (hstep : step options s label = some t) :
    Does options s t label := by
  cases label with
  | enqueue id tenantId channel suppressed now =>
    rw [step] at hstep
    split at hstep
    case isTrue => cases hstep
    case isFalse hnew =>
      cases hstep
      have hnone := get?_eq_none_of_not_has (Bool.eq_false_iff.mpr hnew)
      exact .enqueues id tenantId channel suppressed now hnone rfl rfl
  | claim tenantId asOf batchSize locked now =>
    cases hstep
    exact .claims tenantId asOf batchSize locked now rfl rfl
  | send index exception => exact does_send h hstep
  | answer index outcome => exact does_answer h hstep
  | persist index succeeds now random => exact does_persist h hstep
  | stop index =>
    obtain ⟨run, hrun, hmoved⟩ := Option.bind_eq_some_iff.mp hstep
    split at hmoved
    case h_1 => cases hmoved
    case h_2 => cases hmoved
    case h_3 =>
      cases hmoved
      obtain ⟨hgoes, hnone⟩ := goes_end hrun (.inr rfl)
      exact .ends index run _ hgoes hnone rfl rfl rfl

theorem Inv.step (h : Inv options s) {label : Label}
    (hstep : NotificationDispatch.step options s label = some t) : Inv options t := by
  cases does_of_step h hstep with
  | enqueues id tenantId channel suppressed now hnew heq hearly =>
    rw [heq]
    exact h.enqueue hnew tenantId channel suppressed now
  | claims tenantId asOf batchSize locked now heq hearly =>
    rw [heq]
    exact h.claimDue now
  | goes index run next hgoes hsettles hearly => exact h.goes hgoes
  | ends index run next hgoes hnone hdeliveries hhanded hearly => exact h.goes hgoes

end Stynx.NotificationDispatch
