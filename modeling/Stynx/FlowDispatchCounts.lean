import Stynx.FlowEffectDispatch

/-!
# Counts of a dispatch

What one call of `dispatchPendingEffects` counts and records, whatever happens beside it. The block
that applies an effect also records its success.
-/

namespace Stynx.FlowEffectDispatch

open TransitionRuns CallTables

variable {s t : Flow} {label : Label} {index : Nat} {call : Dispatch}

/-- What a label of its own makes of a call. -/
inductive Moves (s : Flow) (call : Dispatch) : Label → Phase → Prop where
  /-- It selects its rows. -/
  | listed (index : Nat) (input : DispatchEffects) (listing : call.phase = .list input) :
      Moves s call (.list index) (next (pendingRows s call.tenantId input)
        { attempted := (pendingRows s call.tenantId input).length })
  | applied (index : Nat) (row : PendingEffectRow) (effectKey : String)
      (rest : List PendingEffectRow) (progress : Progress) (answer : Except String FlowEffectResult)
      (applying : call.phase = .apply row effectKey rest progress) :
      Moves s call (.applyEffect index answer) (afterApply row effectKey rest progress answer)
  | recorded (index : Nat) (id : String) (createdAt : Nat) (row : PendingEffectRow)
      (outcome : Outcome) (rest : List PendingEffectRow) (progress : Progress)
      (recording : call.phase = .record row outcome rest progress) :
      Moves s call (.record index id createdAt) (afterRecord row outcome rest progress)
  /-- It fails to record an outcome. -/
  | unrecorded (index : Nat) (message : String) (committed : Option (String × Nat))
      (row : PendingEffectRow) (outcome : Outcome) (rest : List PendingEffectRow)
      (progress : Progress) (recording : call.phase = .record row outcome rest progress) :
      Moves s call (.recordFails index message committed)
        (afterFailure row outcome rest progress message)
  | stopped (index : Nat) : Moves s call (.stop index) (.ended none)

theorem moves_of_callStep (hown : label.call = some index)
    (h : callStep s index call label = some t) : ∃ phase, Moves s call label phase ∧
      t.calls = s.calls.set index { call with phase := phase } := by
  cases label with
  | list =>
    cases hown
    simp only [callStep] at h
    split at h
    case h_1 input hphase =>
      cases h
      exact ⟨_, .listed index input hphase, rfl⟩
    case h_2 => cases h
  | applyEffect _ answer =>
    cases hown
    simp only [callStep] at h
    split at h
    case h_1 row effectKey rest progress hphase =>
      have hmoves := Moves.applied (s := s) index row effectKey rest progress answer hphase
      split at h
      · cases h
        exact ⟨_, hmoves, rfl⟩
      · split at h
        · cases h
        · cases h
          exact ⟨_, hmoves, rfl⟩
    case h_2 => cases h
  | record _ id createdAt =>
    cases hown
    simp only [callStep] at h
    split at h
    case h_1 row outcome rest progress hphase =>
      split at h
      · cases h
      · cases h
        exact ⟨_, .recorded index id createdAt row outcome rest progress hphase, rfl⟩
    case h_2 => cases h
  | recordFails _ message committed =>
    cases hown
    simp only [callStep] at h
    split at h
    case h_1 row outcome rest progress hphase =>
      have hmoves := Moves.unrecorded (s := s) index message committed row outcome rest progress hphase
      cases committed with
      | none =>
        cases h
        exact ⟨_, hmoves, rfl⟩
      | some added =>
        dsimp only at h
        split at h
        · cases h
        · cases h
          exact ⟨_, hmoves, rfl⟩
    case h_2 => cases h
  | stop =>
    cases hown
    simp only [callStep] at h
    split at h
    · cases h
    · cases h
      exact ⟨_, .stopped index, rfl⟩
  | dispatch => cases hown
  | append => cases hown
  | change => cases hown

theorem call_cases (h : step s label = some t) (index : Nat) :
    t.calls[index]? = s.calls[index]? ∧ label.call ≠ some index ∨
      (∃ tenantId actorId input, s.calls[index]? = none ∧ label = .dispatch tenantId actorId input ∧
        t.calls[index]? = some ⟨tenantId, actorId, .list input⟩) ∨
      label.call = some index ∧ ∃ call phase, s.calls[index]? = some call ∧
        Moves s call label phase ∧ t.calls[index]? = some { call with phase := phase } := by
  unfold step at h
  cases hown : label.call with
  | some mover =>
    rw [hown] at h
    obtain ⟨call, hcall, h⟩ := Option.bind_eq_some_iff.mp h
    obtain ⟨phase, hmoves, hcalls⟩ := moves_of_callStep hown h
    rw [hcalls]
    by_cases heq : mover = index
    · subst heq
      have hlt := (List.getElem?_eq_some_iff.mp hcall).1
      exact .inr (.inr ⟨rfl, call, phase, hcall, hmoves, List.getElem?_set_self hlt⟩)
    · exact .inl ⟨List.getElem?_set_ne heq, fun hsome => heq (Option.some.inj hsome)⟩
  | none =>
    rw [hown] at h
    cases label with
    | dispatch tenantId actorId input =>
      cases h
      by_cases heq : index = s.calls.length
      · refine .inr (.inl ⟨tenantId, actorId, input, ?_, rfl, ?_⟩)
        · exact List.getElem?_eq_none heq.ge
        · rw [heq]
          exact List.getElem?_concat_length
      · refine .inl ⟨?_, nofun⟩
        rcases Nat.lt_or_gt_of_ne heq with hlt | hgt
        · exact List.getElem?_append_left hlt
        · rw [List.getElem?_eq_none hgt.le, List.getElem?_eq_none]
          rw [List.length_append, List.length_singleton]
          omega
    | append event =>
      dsimp only at h
      split at h
      · cases h
      · cases h
        exact .inl ⟨rfl, nofun⟩
    | change runs nodeCodes decidedActions =>
      cases h
      exact .inl ⟨rfl, nofun⟩
    | list => cases hown
    | applyEffect => cases hown
    | record => cases hown
    | recordFails => cases hown
    | stop => cases hown

/-- What a call has been given to do, and what it has counted with the rows still to count. -/
def Phase.counted : Phase → Option (Nat × Nat)
  | .list _ => none
  | .apply _ _ rest progress =>
    some (progress.attempted, progress.succeeded + progress.failed + (rest.length + 1))
  | .record _ _ rest progress =>
    some (progress.attempted, progress.succeeded + progress.failed + rest.length)
  | .ended result =>
    result.map fun progress => (progress.attempted, progress.succeeded + progress.failed)

theorem counted_next (rows : List PendingEffectRow) (progress : Progress) :
    (next rows progress).counted =
      some (progress.attempted, progress.succeeded + progress.failed + rows.length) := by
  cases rows with
  | nil => rfl
  | cons row rest =>
    unfold next
    dsimp only
    split
    · rfl
    · simp only [Phase.counted, List.length_cons, Option.some.injEq, Prod.mk.injEq, true_and]
      omega

def Misrecords (index : Nat) (s : Flow) : Label → Prop
  | .recordFails mover _ _ => mover = index ∧
    ∃ call row effectKey result rest progress, s.calls[index]? = some call ∧
      call.phase = .record row (.succeeded effectKey result) rest progress
  | _ => False

variable {phase : Phase} {shown : List Observation} {row : PendingEffectRow}
  {rest : List PendingEffectRow}

theorem counted_moves (hown : label.call = some index) (hcall : s.calls[index]? = some call)
    (h : Moves s call label phase) :
    phase.counted = none ∨
      ¬ Misrecords index s label ∧ (phase.counted = call.phase.counted ∨
        (∃ input, call.phase = .list input) ∧ ∃ n, phase.counted = some (n, n)) ∨
      Misrecords index s label ∧ ∃ attempted counted,
        call.phase.counted = some (attempted, counted) ∧
          phase.counted = some (attempted, counted + 1) := by
  cases h with
  | listed _ input hphase =>
    refine .inr (.inl ⟨nofun, .inr ⟨⟨input, hphase⟩,
      (pendingRows s call.tenantId input).length, ?_⟩⟩)
    rw [counted_next]
    simp
  | applied _ row effectKey rest progress answer hphase =>
    refine .inr (.inl ⟨nofun, .inl ?_⟩)
    rw [hphase]
    cases answer <;>
      simp only [afterApply, Phase.counted, Option.some.injEq, Prod.mk.injEq, true_and] <;> omega
  | recorded _ id createdAt row outcome rest progress hphase =>
    refine .inr (.inl ⟨nofun, .inl ?_⟩)
    rw [hphase, afterRecord, counted_next]
    rfl
  | unrecorded mover message committed row outcome rest progress hphase =>
    cases hown
    cases outcome with
    | succeeded effectKey result =>
      refine .inr (.inr ⟨⟨rfl, call, row, effectKey, result, rest, progress, hcall, hphase⟩,
        _, _, by rw [hphase]; rfl, ?_⟩)
      simp only [afterFailure, Phase.counted, Option.some.injEq, Prod.mk.injEq, true_and]
      omega
    | failed effectKey error => exact .inl rfl
  | stopped => exact .inl rfl

def Agrees (index : Nat) (s : Flow) : Prop :=
  ∀ call ∈ s.calls[index]?, ∀ counts ∈ call.phase.counted, counts.1 = counts.2

/-- A call that has selected its rows counts one of them twice. -/
def CountsTwice (index : Nat) (s : Flow) : Prop :=
  ∃ call, s.calls[index]? = some call ∧ (∀ input, call.phase ≠ .list input) ∧
    ∀ counts ∈ call.phase.counted, counts.1 < counts.2

theorem ne_list_of_moves (h : Moves s call label phase) (input : DispatchEffects) :
    phase ≠ .list input := by
  have hnext : ∀ rows progress, next rows progress ≠ .list input := by
    intro rows progress
    unfold next
    split
    · exact nofun
    · split <;> exact nofun
  cases h with
  | listed => exact hnext _ _
  | applied _ row effectKey rest progress answer => cases answer <;> exact nofun
  | recorded => exact hnext _ _
  | unrecorded _ message committed row outcome => cases outcome <;> exact nofun
  | stopped => exact nofun

theorem not_misrecords_of_ne (hne : label.call ≠ some index) : ¬ Misrecords index s label := by
  intro h
  cases label with
  | recordFails mover => exact hne (congrArg some h.1)
  | _ => exact h

theorem Agrees.step (h : Agrees index s) (hok : ¬ Misrecords index s label)
    (hstep : FlowEffectDispatch.step s label = some t) : Agrees index t := by
  intro after hafter counts hcounts
  rcases call_cases hstep index with ⟨hsame, -⟩ | ⟨_, _, _, -, -, hnew⟩ |
    ⟨hown, call, phase, hcall, hmoves, hset⟩
  · rw [hsame] at hafter
    exact h after hafter counts hcounts
  · rw [hnew] at hafter
    cases hafter
    cases hcounts
  · rw [hset] at hafter
    cases hafter
    rcases counted_moves hown hcall hmoves with hnone | ⟨-, hsame | ⟨-, n, hlisted⟩⟩ | ⟨hmis, -⟩
    · rw [hnone] at hcounts
      cases hcounts
    · rw [hsame] at hcounts
      exact h call hcall counts hcounts
    · rw [hlisted] at hcounts
      cases hcounts
      rfl
    · exact absurd hmis hok

theorem CountsTwice.step (h : CountsTwice index s)
    (hstep : FlowEffectDispatch.step s label = some t) : CountsTwice index t := by
  obtain ⟨call, hcall, hlisted, htwice⟩ := h
  rcases call_cases hstep index with ⟨hsame, -⟩ | ⟨_, _, _, hnone, -⟩ |
    ⟨hown, found, phase, hfound, hmoves, hset⟩
  · exact ⟨call, hsame.trans hcall, hlisted, htwice⟩
  · rw [hcall] at hnone
    cases hnone
  · rw [hcall] at hfound
    cases hfound
    refine ⟨_, hset, ne_list_of_moves hmoves, fun counts hcounts => ?_⟩
    rcases counted_moves hown hcall hmoves with hnone | ⟨-, hsame | ⟨⟨input, hlist⟩, -⟩⟩ |
      ⟨-, attempted, counted, hbefore, hafter⟩
    · rw [hnone] at hcounts
      cases hcounts
    · rw [hsame] at hcounts
      exact htwice counts hcounts
    · exact absurd hlist (hlisted input)
    · rw [hafter] at hcounts
      cases hcounts
      exact (htwice _ hbefore).trans (Nat.lt_succ_self counted)

theorem Agrees.misrecords (h : Agrees index s) (hmis : Misrecords index s label)
    (hstep : FlowEffectDispatch.step s label = some t) : CountsTwice index t := by
  rcases call_cases hstep index with ⟨-, hne⟩ | ⟨_, _, _, -, hlabel, -⟩ |
    ⟨hown, call, phase, hcall, hmoves, hset⟩
  · exact absurd hmis (not_misrecords_of_ne hne)
  · rw [hlabel] at hmis
    cases hmis
  · refine ⟨_, hset, ne_list_of_moves hmoves, fun counts hcounts => ?_⟩
    rcases counted_moves hown hcall hmoves with hnone | ⟨hok, -⟩ |
      ⟨-, attempted, counted, hbefore, hafter⟩
    · rw [hnone] at hcounts
      cases hcounts
    · exact absurd hmis hok
    · rw [hafter] at hcounts
      cases hcounts
      have hequal := h call hcall _ hbefore
      exact hequal.trans_lt (Nat.lt_succ_self counted)

theorem agrees_run {labels : List Label} (h : Agrees index s)
    (hrun : run FlowEffectDispatch.step s labels = some t) :
    RunMeets FlowEffectDispatch.step (fun s label => ¬ Misrecords index s label) s labels ∧
        Agrees index t ∨
      ¬ RunMeets FlowEffectDispatch.step (fun s label => ¬ Misrecords index s label) s labels ∧
        CountsTwice index t := by
  induction labels generalizing s with
  | nil =>
    cases hrun
    exact .inl ⟨trivial, h⟩
  | cons label rest ih =>
    obtain ⟨m, hm, hrest⟩ := run_cons_eq_some.mp hrun
    rw [runMeets_of_some hm]
    by_cases hmis : Misrecords index s label
    · refine .inr ⟨fun hall => hall.1 hmis, ?_⟩
      exact run_invariant (fun _ _ _ htwice hnext => htwice.step hnext) (h.misrecords hmis hm) hrest
    · rcases ih (h.step hmis hm) hrest with ⟨hall, hagrees⟩ | ⟨hsome, htwice⟩
      · exact .inl ⟨⟨hmis, hall⟩, hagrees⟩
      · exact .inr ⟨fun hall => hsome hall.2, htwice⟩

/-- What a call shows of itself. -/
inductive Observation where
  /-- An effect has been applied with success. -/
  | applied (eventId : String)
  /-- An effect has been recorded as failed. -/
  | failed (eventId : String)

/-- The event whose effect is to be applied. -/
def Phase.applying : Phase → Option String
  | .apply row _ _ _ => some row.eventId
  | _ => none

def Phase.failing : Phase → Option String
  | .record row (.failed _ _) _ _ => some row.eventId
  | _ => none

def Dispatch.shows (call : Dispatch) : Label → List Observation
  | .applyEffect _ (.ok _) => (call.phase.applying.map .applied).toList
  | .record _ _ _ => (call.phase.failing.map .failed).toList
  | .recordFails _ _ (some _) => (call.phase.failing.map .failed).toList
  | _ => []

def observes (index : Nat) (s : Flow) (label : Label) : List Observation :=
  if label.call = some index then (s.calls[index]?.map fun call => call.shows label).getD [] else []

/-- The rows that a call may still apply, or is to record as failed. -/
def Phase.waiting : Phase → List PendingEffectRow
  | .apply row _ rest _ => row :: rest
  | .record row (.failed _ _) rest _ => row :: rest
  | .record _ (.succeeded _ _) rest _ => rest
  | _ => []

@[simp] theorem waiting_next (rows : List PendingEffectRow) (progress : Progress) :
    (next rows progress).waiting = rows := by
  cases rows with
  | nil => rfl
  | cons row rest =>
    unfold next
    dsimp only
    split <;> rfl

/-- Rows of which a call has shown nothing. -/
structure Unseen (shown : List Observation) (rows : List PendingEffectRow) : Prop where
  nodup : (rows.map PendingEffectRow.eventId).Nodup
  unapplied : ∀ row ∈ rows, .applied row.eventId ∉ shown
  /-- None has been recorded as failed. -/
  unfailed : ∀ row ∈ rows, .failed row.eventId ∉ shown

/-- What a call has shown fits the phase that it is in. -/
structure Honest (index : Nat) (shown : List Observation) (s : Flow) : Prop where
  /-- The primary key of the events. -/
  ids : (s.events.map FlowEvent.id).Nodup
  /-- No effect that was recorded as failed has been applied. -/
  failed : ∀ id, .failed id ∈ shown → .applied id ∉ shown
  /-- Nothing is shown before the rows are selected. -/
  quiet : (∀ call ∈ s.calls[index]?, ∃ input, call.phase = .list input) → shown = []
  /-- Nothing has been shown of the rows that wait. -/
  waiting : ∀ call ∈ s.calls[index]?, Unseen shown call.phase.waiting

theorem Unseen.tail (h : Unseen shown (row :: rest)) : Unseen shown rest where
  nodup := (List.nodup_cons.mp h.nodup).2
  unapplied other hother := h.unapplied other (.tail row hother)
  unfailed other hother := h.unfailed other (.tail row hother)

theorem Unseen.nil {rows : List PendingEffectRow} (h : Unseen shown rows) : Unseen shown [] :=
  ⟨h.nodup.sublist (List.nil_sublist _), fun _ hrow => absurd hrow List.not_mem_nil,
    fun _ hrow => absurd hrow List.not_mem_nil⟩

theorem Unseen.show (h : Unseen shown (row :: rest)) {observation : Observation}
    (hrow : observation = .applied row.eventId ∨ observation = .failed row.eventId) :
    Unseen (shown ++ [observation]) rest := by
  have hne : ∀ other ∈ rest, row.eventId ≠ other.eventId := fun other hother heq =>
    (List.nodup_cons.mp h.nodup).1 (heq ▸ List.mem_map_of_mem hother)
  refine ⟨h.tail.nodup, fun other hother => ?_, fun other hother => ?_⟩
  · simp only [List.mem_append, List.mem_singleton, not_or]
    refine ⟨h.tail.unapplied other hother, fun heq => ?_⟩
    rcases hrow with happlied | hfailed
    · exact hne other hother (Observation.applied.inj (heq.trans happlied)).symm
    · exact Observation.noConfusion (heq.trans hfailed)
  · simp only [List.mem_append, List.mem_singleton, not_or]
    refine ⟨h.tail.unfailed other hother, fun heq => ?_⟩
    rcases hrow with happlied | hfailed
    · exact Observation.noConfusion (heq.trans happlied)
    · exact hne other hother (Observation.failed.inj (heq.trans hfailed)).symm

theorem observes_of_ne (hne : label.call ≠ some index) : observes index s label = [] :=
  if_neg hne

theorem observes_own (hown : label.call = some index) (hcall : s.calls[index]? = some call) :
    observes index s label = call.shows label := by
  rw [observes, if_pos hown, hcall, Option.map_some, Option.getD_some]

theorem events_of_callStep (h : callStep s index call label = some t) : t.events = s.events ∨
    ∃ added, added.id ∉ s.events.map FlowEvent.id ∧ t.events = s.events ++ [added] := by
  cases label with
  | list | stop =>
    simp only [callStep] at h
    split at h <;> cases h
    exact .inl rfl
  | applyEffect _ answer =>
    simp only [callStep] at h
    split at h
    · split at h
      · cases h
        exact .inl rfl
      · split at h
        · cases h
        · cases h
          exact .inl rfl
    · cases h
  | record _ id createdAt =>
    simp only [callStep] at h
    split at h
    · split at h
      · cases h
      · rename_i hfresh
        cases h
        exact .inr ⟨_, hfresh, rfl⟩
    · cases h
  | recordFails _ message committed =>
    simp only [callStep] at h
    split at h
    · cases committed with
      | none =>
        cases h
        exact .inl rfl
      | some added =>
        dsimp only at h
        split at h
        · cases h
        · rename_i hfresh
          cases h
          exact .inr ⟨_, hfresh, rfl⟩
    · cases h
  | dispatch => cases h
  | append => cases h
  | change => cases h

theorem ids_step (hids : (s.events.map FlowEvent.id).Nodup) (h : step s label = some t) :
    (t.events.map FlowEvent.id).Nodup := by
  have hadded : t.events = s.events ∨
      ∃ added, added.id ∉ s.events.map FlowEvent.id ∧ t.events = s.events ++ [added] := by
    unfold step at h
    cases hown : label.call with
    | some mover =>
      rw [hown] at h
      obtain ⟨call, -, h⟩ := Option.bind_eq_some_iff.mp h
      exact events_of_callStep h
    | none =>
      rw [hown] at h
      cases label with
      | append event =>
        dsimp only at h
        split at h
        · cases h
        · rename_i hok
          cases h
          exact .inr ⟨event, (not_or.mp hok).1, rfl⟩
      | dispatch | change =>
        cases h
        exact .inl rfl
      | list => cases hown
      | applyEffect => cases hown
      | record => cases hown
      | recordFails => cases hown
      | stop => cases hown
  rcases hadded with hsame | ⟨added, hfresh, happended⟩
  · rw [hsame]
    exact hids
  · rw [happended]
    exact nodup_addEvent hids hfresh

theorem Honest.moved {observations : List Observation} (hids : (t.events.map FlowEvent.id).Nodup)
    (hset : t.calls[index]? = some { call with phase := phase })
    (hphase : ∀ input, phase ≠ .list input)
    (hwaiting : Unseen (shown ++ observations) phase.waiting)
    (hfailed : ∀ id, .failed id ∈ shown ++ observations → .applied id ∉ shown ++ observations) :
    Honest index (shown ++ observations) t where
  ids := hids
  failed := hfailed
  quiet hall := by
    obtain ⟨input, hlist⟩ := hall _ hset
    exact absurd hlist (hphase input)
  waiting after hafter := by
    rw [hset] at hafter
    cases hafter
    exact hwaiting

theorem Honest.unseen (h : Honest index shown s) (hids : (t.events.map FlowEvent.id).Nodup)
    (hset : t.calls[index]? = some { call with phase := phase })
    (hphase : ∀ input, phase ≠ .list input) (hwaiting : Unseen shown phase.waiting) :
    Honest index (shown ++ []) t := by
  refine Honest.moved hids hset hphase ?_ ?_
  · rw [List.append_nil]
    exact hwaiting
  · rw [List.append_nil]
    exact h.failed

theorem Honest.failed_show (h : Honest index shown s) (hwaits : Unseen shown (row :: rest))
    (id : String) (hid : .failed id ∈ shown ++ [.failed row.eventId]) :
    .applied id ∉ shown ++ [.failed row.eventId] := by
  simp only [List.mem_append, List.mem_singleton, reduceCtorEq, or_false]
  rcases mem_concat_iff.mp hid with hold | hnew
  · exact h.failed id hold
  · rw [Observation.failed.inj hnew]
    exact hwaits.unapplied row (.head _)

theorem Honest.step (h : Honest index shown s) (hok : ¬ Misrecords index s label)
    (hstep : FlowEffectDispatch.step s label = some t) :
    Honest index (shown ++ observes index s label) t := by
  have hids := ids_step h.ids hstep
  rcases call_cases hstep index with ⟨hsame, hne⟩ | ⟨tenantId, actorId, input, hnone, rfl, hnew⟩ |
    ⟨hown, call, phase, hcall, hmoves, hset⟩
  · rw [observes_of_ne hne, List.append_nil]
    exact ⟨hids, h.failed, by rw [hsame]; exact h.quiet, by rw [hsame]; exact h.waiting⟩
  · have hquiet : shown = [] := h.quiet fun call hcall => by
      rw [hnone] at hcall
      cases hcall
    subst hquiet
    refine ⟨hids, fun id hid => absurd hid List.not_mem_nil, fun _ => rfl, fun call hcall => ?_⟩
    rw [hnew] at hcall
    cases hcall
    exact ⟨List.nodup_nil, fun row hrow => absurd hrow List.not_mem_nil,
      fun row hrow => absurd hrow List.not_mem_nil⟩
  · have hwaits := h.waiting call hcall
    rw [observes_own hown hcall]
    cases hmoves with
    | listed _ input hphase =>
      have hquiet : shown = [] := h.quiet fun found hfound => by
        rw [hcall] at hfound
        cases hfound
        exact ⟨input, hphase⟩
      subst hquiet
      refine Honest.moved hids hset (ne_list_of_moves (.listed index input hphase))
        ?_ fun id hid => absurd hid List.not_mem_nil
      rw [waiting_next]
      exact ⟨nodup_pendingRows h.ids _ input, fun _ _ => List.not_mem_nil,
        fun _ _ => List.not_mem_nil⟩
    | applied mover row effectKey rest progress answer hphase =>
      rw [hphase] at hwaits
      cases answer with
      | error message => exact h.unseen hids hset (fun _ h => by cases h) hwaits
      | ok result =>
        have hshows : call.shows (.applyEffect mover (.ok result)) = [.applied row.eventId] := by
          rw [Dispatch.shows, hphase]
          rfl
        rw [hshows]
        refine Honest.moved hids hset (fun _ h => by cases h) (hwaits.show (.inl rfl)) fun id hid => ?_
        simp only [List.mem_append, List.mem_singleton, reduceCtorEq, or_false] at hid
        simp only [List.mem_append, List.mem_singleton, not_or]
        refine ⟨h.failed id hid, fun heq => ?_⟩
        rw [Observation.applied.inj heq] at hid
        exact hwaits.unfailed row (.head _) hid
    | recorded mover id createdAt row outcome rest progress hphase =>
      have hlist := ne_list_of_moves (s := s) (.recorded mover id createdAt row outcome rest progress
        hphase)
      rw [hphase] at hwaits
      cases outcome with
      | succeeded effectKey result =>
        have hshows : call.shows (.record mover id createdAt) = [] := by
          rw [Dispatch.shows, hphase]
          rfl
        rw [hshows]
        refine h.unseen hids hset hlist ?_
        rw [afterRecord, waiting_next]
        exact hwaits
      | failed effectKey error =>
        have hshows : call.shows (.record mover id createdAt) = [.failed row.eventId] := by
          rw [Dispatch.shows, hphase]
          rfl
        rw [hshows]
        refine Honest.moved hids hset hlist ?_ (h.failed_show hwaits)
        rw [afterRecord, waiting_next]
        exact hwaits.show (.inr rfl)
    | unrecorded mover message committed row outcome rest progress hphase =>
      cases hown
      cases outcome with
      | succeeded effectKey result =>
        exact absurd ⟨rfl, call, row, effectKey, result, rest, progress, hcall, hphase⟩ hok
      | failed effectKey error =>
        rw [hphase] at hwaits
        cases committed with
        | none => exact h.unseen hids hset (fun _ h => by cases h) hwaits.nil
        | some added =>
          have hshows : call.shows (.recordFails index message (some added)) =
              [.failed row.eventId] := by
            rw [Dispatch.shows, hphase]
            rfl
          rw [hshows]
          exact Honest.moved hids hset (fun _ h => by cases h) (hwaits.show (.inr rfl)).nil (h.failed_show hwaits)
    | stopped => exact h.unseen hids hset (fun _ h => by cases h) hwaits.nil

/-- What a call shows in a run. -/
def observations (index : Nat) (s : Flow) (labels : List Label) : List Observation :=
  trace FlowEffectDispatch.step (observes index) s labels

/-- No recording of a success fails in a run of a call. -/
def RecordsSuccesses (index : Nat) (s : Flow) (labels : List Label) : Prop :=
  RunMeets FlowEffectDispatch.step (fun s label => ¬ Misrecords index s label) s labels

/-- An effect is recorded as failed only if its application has not succeeded. -/
def FailsUnapplied (index : Nat) (s : Flow) (labels : List Label) : Prop :=
  ∀ id, .failed id ∈ observations index s labels → .applied id ∉ observations index s labels

theorem failsUnapplied_of_recordsSuccesses {store : Store} {labels : List Label}
    (hok : RecordsSuccesses index (start store) labels)
    (hrun : run FlowEffectDispatch.step (start store) labels = some s) :
    FailsUnapplied index (start store) labels := by
  have hstart : Honest index [] (start store) :=
    ⟨store.ids, fun _ hid => absurd hid List.not_mem_nil, fun _ => rfl, fun _ hcall => by cases hcall⟩
  have hend : Honest index ([] ++ observations index (start store) labels) s :=
    run_invariant_trace (fun shown s label t hs hok hstep => hs.step hok hstep) hstart hok hrun
  exact hend.failed

/-- In every run the effects recorded as failed have not been applied, if no recording of a success
fails; and a call that returns has counts that add up just then. -/
theorem dispatch_counts {store : Store} {labels : List Label} (index : Nat)
    (hrun : run FlowEffectDispatch.step (start store) labels = some s) :
    (RecordsSuccesses index (start store) labels → FailsUnapplied index (start store) labels) ∧
    ∀ call progress, s.calls[index]? = some call → call.phase = .ended (some progress) →
      ((progress.attempted = progress.succeeded + progress.failed ∧
          FailsUnapplied index (start store) labels) ↔
        RecordsSuccesses index (start store) labels) := by
  refine ⟨fun hok => failsUnapplied_of_recordsSuccesses hok hrun, ?_⟩
  intro call progress hcall hphase
  have hcounted : (progress.attempted, progress.succeeded + progress.failed) ∈
      call.phase.counted := by
    rw [hphase]
    rfl
  have hstart : Agrees index (start store) := fun _ hnone => by cases hnone
  rcases agrees_run hstart hrun with ⟨hok, hagrees⟩ | ⟨hbad, found, hfound, -, htwice⟩
  · exact iff_of_true
      ⟨hagrees call hcall _ hcounted, failsUnapplied_of_recordsSuccesses hok hrun⟩ hok
  · rw [hcall] at hfound
    cases hfound
    have hlt := htwice _ hcounted
    exact iff_of_false (fun hgood => absurd hgood.1 hlt.ne) hbad

def recordedRun : List Label := [everything, .list 0, applies 0, .record 0 "e2" 2]

theorem dispatch_counts_recorded :
    ∃ s call progress, run FlowEffectDispatch.step (start oneEffect) recordedRun = some s ∧
      s.calls[0]? = some call ∧ call.phase = .ended (some progress) ∧
      progress.attempted = progress.succeeded + progress.failed ∧
      FailsUnapplied 0 (start oneEffect) recordedRun := by
  have hok : RecordsSuccesses 0 (start oneEffect) recordedRun := by
    refine runMeets_cons.mpr ⟨nofun, fun _ _ => runMeets_cons.mpr ⟨nofun, fun _ _ => ?_⟩⟩
    exact runMeets_cons.mpr ⟨nofun, fun _ _ => runMeets_cons.mpr ⟨nofun, fun _ _ => trivial⟩⟩
  exact ⟨_, _, _, rfl, rfl, rfl, ((dispatch_counts 0 rfl).2 _ _ rfl rfl).mpr hok⟩

/-- The record of the success fails: the effect is counted twice, and recorded as failed. -/
theorem misrecorded_counted_twice : ¬ ∀ (store : Store) (labels : List Label) (index : Nat) (s : Flow)
    (call : Dispatch) (progress : Progress),
    run FlowEffectDispatch.step (start store) labels = some s → s.calls[index]? = some call →
      call.phase = .ended (some progress) →
      progress.attempted = progress.succeeded + progress.failed ∧
        FailsUnapplied index (start store) labels := by
  intro hall
  have hcounts := (hall oneEffect
    [everything, .list 0, applies 0, .recordFails 0 "lost" none, .record 0 "e2" 2] 0 _ _ _
    rfl rfl rfl).1
  exact absurd hcounts (by decide)

end Stynx.FlowEffectDispatch
